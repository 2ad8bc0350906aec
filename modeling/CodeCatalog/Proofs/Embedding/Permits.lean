import CodeCatalog.Proofs.Embedding.Fill
set_option autoImplicit false

/-!
# Permits

What others see of the jobs of a batch is a list of events: the job for a record takes a permit,
sends texts to the service, and ends with a vector or without.  In every run that the permits
allow, at each of its moments, the permits that are held are those that were taken by jobs that
have not ended, and they are never more than there are.  A job sends nothing before it takes its
permit and nothing after its end, and there are jobs for those records alone that need a vector,
one for each.
-/

namespace CodeCatalog

variable {σ κ : Type}

/-! ## Events -/

/-- What is seen of the job for a record. -/
inductive JobEvent where
  | takes (record : Nat)
  | sends (record : Nat) (text : Text)
  | ends (record : Nat) (vector : Option (List Double))

namespace JobEvent

/-- The position of the record. -/
def record : JobEvent → Nat
  | .takes i => i
  | .sends i _ => i
  | .ends i _ => i

/-- A permit is taken. -/
def isTake : JobEvent → Bool
  | .takes _ => true
  | _ => false

/-- A job ends, and gives its permit back. -/
def isEnd : JobEvent → Bool
  | .ends _ _ => true
  | _ => false

/-- The text that is sent. -/
def sent? : JobEvent → Option Text
  | .sends _ text => some text
  | _ => none

/-- The requests that are made, with their texts. -/
def requests (seen : List JobEvent) : List (List Text) :=
  seen.filterMap fun e => e.sent?.map ([·])

/-- What is seen of the job for one record. -/
def ofRecord (i : Nat) (seen : List JobEvent) : List JobEvent :=
  seen.filter fun e => e.record == i

theorem ofRecord_append_self {i : Nat} (seen : List JobEvent) {shown : List JobEvent}
    (h : ∀ e ∈ shown, e.record = i) : ofRecord i (seen ++ shown) = ofRecord i seen ++ shown := by
  have hall : ofRecord i shown = shown :=
    List.filter_eq_self.2 fun e he => beq_iff_eq.2 (h e he)
  rw [ofRecord, List.filter_append]
  exact congrArg _ hall

theorem ofRecord_append_of_ne {i k : Nat} (hne : k ≠ i) (seen : List JobEvent)
    {shown : List JobEvent} (h : ∀ e ∈ shown, e.record = k) :
    ofRecord i (seen ++ shown) = ofRecord i seen := by
  have hnone : ofRecord i shown = [] := by
    refine List.filter_eq_nil_iff.2 fun e he => ?_
    rw [h e he, beq_iff_eq]
    exact hne
  rw [ofRecord, List.filter_append]
  exact (congrArg _ hnone).trans (List.append_nil _)

theorem requests_append (seen shown : List JobEvent) :
    requests (seen ++ shown) = requests seen ++ requests shown := List.filterMap_append

end JobEvent

/-- What has been seen of a job that is so far: nothing while it waits, then that it took a permit
and what it sent, and last that it ended. -/
inductive Job.Told (job : Job) : Progress κ → List JobEvent → Prop
  | waiting : job.Told .waiting []
  | active {attempt : Nat} {now : κ} {sent : List JobEvent} (hsent : ∀ e ∈ sent, e.sent?.isSome) :
    job.Told (.active attempt now) (.takes job.index :: sent)
  | ended {v : Option (List Double)} {sent : List JobEvent} (hsent : ∀ e ∈ sent, e.sent?.isSome) :
    job.Told (.ended v) (.takes job.index :: (sent ++ [.ends job.index v]))

/-- What is seen of the end of a job that has got so far. -/
def Job.ending (job : Job) : Progress κ → List JobEvent
  | .ended v => [.ends job.index v]
  | _ => []

theorem Job.requests_ending (job : Job) (p : Progress κ) :
    JobEvent.requests (job.ending p) = [] := by
  cases p <;> rfl

namespace Setup

variable {s : Setup σ κ} {b b' : Batch σ κ} {i : Nat} {job : Job} {p p' : Progress κ}
  {seen shown : List JobEvent}

/-- What is seen of a request for the text of a job; one that cannot be sent is not seen. -/
def sending (s : Setup σ κ) (job : Job) : List JobEvent :=
  ((s.embedder.prepareText job.text).toOption.map (.sends job.index)).toList

theorem mem_sending {e : JobEvent} :
    e ∈ s.sending job ↔
      ∃ text, s.embedder.prepareText job.text = .ok text ∧ e = .sends job.index text := by
  unfold sending
  cases s.embedder.prepareText job.text with
  | error f => simp [Except.toOption]
  | ok text => simp [Except.toOption]

theorem isSome_of_mem_sending {e : JobEvent} (h : e ∈ s.sending job) : e.sent?.isSome = true := by
  obtain ⟨text, -, rfl⟩ := mem_sending.1 h
  rfl

theorem countP_sending {P : JobEvent → Bool} (hP : ∀ text, P (.sends job.index text) = false) :
    (s.sending job).countP P = 0 := by
  refine List.countP_eq_zero.2 fun e he => ?_
  obtain ⟨text, -, rfl⟩ := mem_sending.1 he
  simp [hP]

/-- A job takes a permit, or makes a request and goes on, or makes a request and ends. -/
inductive Shows (s : Setup σ κ) (job : Job) : Progress κ → Progress κ → List JobEvent → Prop
  | enter (now : κ) : s.Shows job .waiting (.active 1 now) [.takes job.index]
  | goesOn (attempt attempt' : Nat) (now now' : κ) :
    s.Shows job (.active attempt now) (.active attempt' now') (s.sending job)
  | finishes (attempt : Nat) (now : κ) (v : Option (List Double)) :
    s.Shows job (.active attempt now) (.ended v) (s.sending job ++ [.ends job.index v])

namespace Shows

theorem record_eq (h : s.Shows job p p' shown) : ∀ e ∈ shown, e.record = job.index := by
  have hsending : ∀ e ∈ s.sending job, e.record = job.index := by
    intro e he
    obtain ⟨text, -, rfl⟩ := mem_sending.1 he
    rfl
  cases h with
  | enter now => exact List.forall_mem_singleton.2 rfl
  | goesOn => exact hsending
  | finishes attempt now v =>
    exact List.forall_mem_append.2 ⟨hsending, List.forall_mem_singleton.2 rfl⟩

theorem told (h : s.Shows job p p' shown) (htold : job.Told p seen) :
    job.Told p' (seen ++ shown) := by
  cases h with
  | enter now =>
    cases htold
    exact .active (by simp)
  | goesOn =>
    cases htold with
    | active hsent =>
      exact .active (List.forall_mem_append.2 ⟨hsent, fun e => isSome_of_mem_sending⟩)
  | finishes attempt now v =>
    cases htold with
    | @active _ _ sent hsent =>
      rw [List.cons_append, ← List.append_assoc]
      exact .ended (List.forall_mem_append.2 ⟨hsent, fun e => isSome_of_mem_sending⟩)

/-- A job that takes a permit holds one then, and one that ends holds none. -/
theorem count (h : s.Shows job p p' shown) :
    shown.countP JobEvent.isTake + p.isActive.toNat =
      shown.countP JobEvent.isEnd + p'.isActive.toNat := by
  have htake : (s.sending job).countP JobEvent.isTake = 0 := countP_sending fun _ => rfl
  have hend : (s.sending job).countP JobEvent.isEnd = 0 := countP_sending fun _ => rfl
  cases h with
  | enter now => rfl
  | goesOn => rw [htake, hend]; rfl
  | finishes attempt now v =>
    rw [List.countP_append, List.countP_append, htake, hend]
    rfl

theorem sends (h : s.Shows job p p' shown) {k : Nat} {text : Text}
    (hmem : .sends k text ∈ shown) :
    job.index = k ∧ s.embedder.prepareText job.text = .ok text := by
  have hsending : .sends k text ∈ s.sending job := by
    cases h with
    | enter now => simp at hmem
    | goesOn => exact hmem
    | finishes attempt now v => simpa using hmem
  obtain ⟨text', hprepare, heq⟩ := mem_sending.1 hsending
  cases heq
  exact ⟨rfl, hprepare⟩

end Shows

/-! ## What is kept -/

/-- The permits of a batch are as what was seen of its jobs tells: those are held that were taken
by jobs that have not ended, no job sends anything without one, and it sends its own text alone. -/
structure IsGuarded (s : Setup σ κ) (b : Batch σ κ) (seen : List JobEvent) : Prop where
  held_le : b.held ≤ s.permits
  accounts : seen.countP JobEvent.isTake = seen.countP JobEvent.isEnd + b.held
  told : ∀ j ∈ b.jobs, j.1.Told j.2 (JobEvent.ofRecord j.1.index seen)
  sends : ∀ k text, .sends k text ∈ seen →
    ∃ j ∈ b.jobs.map Prod.fst, j.index = k ∧ s.embedder.prepareText j.text = .ok text

theorem isGuarded_start (jobs : List Job) (state : σ) :
    s.IsGuarded (Batch.start jobs state) [] := by
  have hheld : (Batch.start jobs state : Batch σ κ).held = 0 := by
    simp [Batch.held, Batch.start, List.countP_map, Function.comp_def, Progress.isActive]
  refine ⟨by rw [hheld]; exact Nat.zero_le _, by rw [hheld]; rfl, ?_, by simp⟩
  intro j hj
  obtain ⟨job, -, rfl⟩ := List.mem_map.1 hj
  exact .waiting

/-! ## Steps and runs -/

variable [Span κ]

/-- What is seen of the next step of the `i`th job. -/
def stepEvents (s : Setup σ κ) (b : Batch σ κ) (i : Nat) : List JobEvent :=
  match b.jobs[i]? with
  | some (job, .waiting) => [.takes job.index]
  | some (job, .active attempt now) =>
    let call := s.embedder.embedText s.service job.text now b.state
    s.sending job ++
      job.ending (s.progressAfter attempt (Span.add now call.takes) call.outcome)
  | _ => []

/-- What is seen of steps of given jobs in their order. -/
def events (s : Setup σ κ) : List Nat → Batch σ κ → List JobEvent
  | [], _ => []
  | i :: order, b => s.stepEvents b i ++ ((s.step? b i).map (s.events order)).getD []

theorem events_cons_of_step {order : List Nat} (h : s.step? b i = some b') :
    s.events (i :: order) b = s.stepEvents b i ++ s.events order b' := by
  rw [events, h]
  rfl

/-- A step is made by a job that holds a permit, or by one that finds a permit free. -/
theorem exists_shows_of_step (h : s.step? b i = some b') :
    ∃ job p p', b.jobs[i]? = some (job, p) ∧ b'.jobs = b.jobs.set i (job, p') ∧
      s.Shows job p p' (s.stepEvents b i) ∧ (p.isActive = true ∨ b.held < s.permits) := by
  obtain ⟨job, p, p', hi, hmoves, hjobs⟩ := exists_moves_of_step h
  refine ⟨job, p, p', hi, hjobs, ?_⟩
  unfold stepEvents
  rw [hi]
  cases p with
  | waiting =>
    obtain ⟨rfl, -⟩ := hmoves.of_waiting
    have hfree : b.held < s.permits := by
      by_contra hnot
      simp [step?, hi, hnot] at h
    exact ⟨.enter _, .inr hfree⟩
  | active attempt now =>
    have hne := hmoves.ne_waiting
    have hp' : p' = s.progressAfter attempt
        (Span.add now (s.embedder.embedText s.service job.text now b.state).takes)
        (s.embedder.embedText s.service job.text now b.state).outcome := hmoves.of_active
    simp only [← hp']
    refine ⟨?_, .inl rfl⟩
    cases p' with
    | waiting => exact absurd rfl hne
    | active attempt' now' =>
      have hends : job.ending (.active attempt' now') = [] := rfl
      rw [hends, List.append_nil]
      exact .goesOn attempt attempt' now now'
    | ended v => exact .finishes attempt now v
  | ended v => cases hmoves

/-- A step of one of the jobs, which are for distinct records, keeps what is seen in accord. -/
theorem IsGuarded.step (hdistinct : (b.jobs.map fun j => j.1.index).Nodup)
    (hguarded : s.IsGuarded b seen) (h : s.step? b i = some b') :
    s.IsGuarded b' (seen ++ s.stepEvents b i) := by
  obtain ⟨job, p, p', hi, hjobs, hshows, hpermit⟩ := exists_shows_of_step h
  have hheld := held_of_set hi hjobs
  refine ⟨?_, ?_, ?_, ?_⟩
  · have hle := hguarded.held_le
    have hmost : p'.isActive.toNat ≤ 1 := Bool.toNat_le _
    rcases hpermit with hactive | hfree
    · rw [hactive, Bool.toNat_true] at hheld
      omega
    · omega
  · have haccounts := hguarded.accounts
    have hcount := hshows.count
    rw [List.countP_append, List.countP_append]
    omega
  · intro j hj
    obtain ⟨k, hk⟩ := List.mem_iff_getElem?.1 hj
    by_cases hki : k = i
    · subst hki
      obtain ⟨hlt, -⟩ := List.getElem?_eq_some_iff.1 hi
      have hsame : j = (job, p') := by
        rw [hjobs, List.getElem?_set_self hlt] at hk
        exact (Option.some.inj hk).symm
      rw [hsame, JobEvent.ofRecord_append_self seen hshows.record_eq]
      exact hshows.told (hguarded.told (job, p) (List.mem_of_getElem? hi))
    · rw [getElem?_of_set hki hjobs] at hk
      have hne : job.index ≠ j.1.index := by
        intro heq
        have hlt := (List.getElem?_eq_some_iff.1 hk).1
        refine hki ((List.getElem?_inj (by simpa using hlt) hdistinct).1 ?_)
        simp [hk, hi, heq]
      rw [JobEvent.ofRecord_append_of_ne hne seen hshows.record_eq]
      exact hguarded.told j (List.mem_of_getElem? hk)
  · intro k text hmem
    rw [map_fst_of_step h]
    rcases List.mem_append.1 hmem with hseen | hshown
    · exact hguarded.sends k text hseen
    · obtain ⟨hindex, hprepare⟩ := hshows.sends hshown
      exact ⟨job, List.mem_map.2 ⟨_, List.mem_of_getElem? hi, rfl⟩, hindex, hprepare⟩

theorem IsGuarded.follow {order : List Nat} (hdistinct : (b.jobs.map fun j => j.1.index).Nodup)
    (hguarded : s.IsGuarded b seen) (h : s.follow? order b = some b') :
    s.IsGuarded b' (seen ++ s.events order b) := by
  induction order generalizing b seen with
  | nil =>
    cases h
    simpa [events] using hguarded
  | cons i order ih =>
    obtain ⟨c, hc, h⟩ := Option.bind_eq_some_iff.1 (follow?_cons.symm.trans h)
    have hsame : c.jobs.map (fun j => j.1.index) = b.jobs.map fun j => j.1.index := by
      simpa [Function.comp_def] using congrArg (List.map Job.index) (map_fst_of_step hc)
    rw [events_cons_of_step hc, ← List.append_assoc]
    exact ih (hsame ▸ hdistinct) (hguarded.step hdistinct hc) h

end Setup

/-! ## A service that keeps a ledger -/

/-- A service that answers as another, and keeps a ledger of the requests. -/
def Endpoint.noting (service : Endpoint σ κ) : Endpoint (σ × List (List Text)) κ where
  send state now model texts :=
    let r := service.send state.1 now model texts
    ⟨(r.state, state.2 ++ [texts]), r.takes, r.reply⟩

/-- A batch with a ledger beside the state of the service. -/
def Batch.withLedger (b : Batch σ κ) (ledger : List (List Text)) :
    Batch (σ × List (List Text)) κ := ⟨b.jobs, (b.state, ledger)⟩

namespace Setup

variable [Span κ] {s : Setup σ κ} {b b' : Batch σ κ} {i : Nat} {job : Job}
  {ledger : List (List Text)}

/-- The jobs with a service that keeps a ledger. -/
def noting (s : Setup σ κ) : Setup (σ × List (List Text)) κ :=
  ⟨s.service.noting, s.embedder, s.policy, s.draw, s.permits⟩

/-- A request is answered alike, and what is seen of it is entered. -/
theorem embedText_noting (job : Job) (now : κ) (state : σ) (ledger : List (List Text)) :
    s.noting.embedder.embedText s.noting.service job.text now (state, ledger) =
      ⟨((s.embedder.embedText s.service job.text now state).state,
          ledger ++ JobEvent.requests (s.sending job)),
        (s.embedder.embedText s.service job.text now state).takes,
        (s.embedder.embedText s.service job.text now state).outcome⟩ := by
  change s.embedder.embedText s.service.noting job.text now (state, ledger) = _
  unfold sending
  cases hprepare : s.embedder.prepareText job.text with
  | error f =>
    rw [Embedder.embedText_of_error hprepare, Embedder.embedText_of_error hprepare]
    simp [Except.toOption, JobEvent.requests]
  | ok sent =>
    rw [Embedder.embedText_of_ok hprepare, Embedder.embedText_of_ok hprepare]
    rfl

theorem step?_noting :
    s.noting.step? (b.withLedger ledger) i =
      (s.step? b i).map fun b' =>
        b'.withLedger (ledger ++ JobEvent.requests (s.stepEvents b i)) := by
  have hjobs : (b.withLedger ledger).jobs = b.jobs := rfl
  unfold step? stepEvents
  rw [hjobs]
  cases hi : b.jobs[i]? with
  | none => rfl
  | some j =>
    obtain ⟨job, p⟩ := j
    cases p with
    | waiting =>
      have hheld : (b.withLedger ledger).held < s.noting.permits ↔ b.held < s.permits := Iff.rfl
      by_cases hfree : b.held < s.permits
      · simp only [if_pos hfree, if_pos (hheld.2 hfree), Option.map_some]
        simp [JobEvent.requests, JobEvent.sent?, Batch.advance, Batch.withLedger]
      · simp only [if_neg hfree, if_neg (hheld.not.2 hfree), Option.map_none]
    | active attempt now =>
      have hcall := s.embedText_noting job now b.state ledger
      change some ((b.withLedger ledger).advance i job _ _) = _
      simp only [Batch.withLedger] at hcall ⊢
      rw [hcall, JobEvent.requests_append, Job.requests_ending, List.append_nil]
      rfl
    | ended v => rfl

/-- What is seen of a run is what the service is asked. -/
theorem follow?_noting {order : List Nat} :
    s.noting.follow? order (b.withLedger ledger) =
      (s.follow? order b).map fun b' =>
        b'.withLedger (ledger ++ JobEvent.requests (s.events order b)) := by
  induction order generalizing b ledger with
  | nil =>
    have hnone : JobEvent.requests (s.events [] b) = [] := rfl
    change some (b.withLedger ledger) = some _
    rw [hnone, List.append_nil]
  | cons i order ih =>
    rw [follow?_cons, follow?_cons, step?_noting]
    cases hstep : s.step? b i with
    | none => rfl
    | some c =>
      rw [Option.map_some, Option.bind_some, Option.bind_some, ih, events_cons_of_step hstep,
        JobEvent.requests_append, List.append_assoc]

end Setup

/-! ## The jobs for records -/

namespace Record

theorem mem_jobs {rs : List Record} {job : Job} :
    job ∈ jobs rs ↔ ∃ r, rs[job.index]? = some r ∧ r.pendingText? = some job.text := by
  rw [jobs_eq_jobsFrom, jobsFrom, List.mem_filterMap]
  constructor
  · rintro ⟨⟨r, i⟩, hr, hjob⟩
    obtain ⟨text, hpending, rfl⟩ := Option.map_eq_some_iff.1 hjob
    exact ⟨r, List.mk_mem_zipIdx_iff_getElem?.1 hr, hpending⟩
  · rintro ⟨r, hr, hpending⟩
    exact ⟨(r, job.index), List.mk_mem_zipIdx_iff_getElem?.2 hr, by rw [hpending]; rfl⟩

/-- There are no two jobs for a record. -/
theorem nodup_index_jobs (rs : List Record) : ((jobs rs).map Job.index).Nodup := by
  have hpositions : (rs.zipIdx.map Prod.snd).Nodup := by
    rw [List.zipIdx_map_snd]
    exact List.nodup_range'
  rw [List.Nodup, List.pairwise_map, jobs_eq_jobsFrom, jobsFrom, List.pairwise_filterMap]
  refine (List.pairwise_map.1 hpositions).imp fun hne job hjob job' hjob' => ?_
  obtain ⟨_, -, rfl⟩ := Option.map_eq_some_iff.1 hjob
  obtain ⟨_, -, rfl⟩ := Option.map_eq_some_iff.1 hjob'
  exact hne

theorem count_index_jobs (rs : List Record) (i : Nat) :
    ((jobs rs).map Job.index).count i = if (rs[i]?).any isPending then 1 else 0 := by
  have hmem : i ∈ (jobs rs).map Job.index ↔ (rs[i]?).any isPending = true := by
    rw [List.mem_map, Option.any_eq_true]
    constructor
    · rintro ⟨job, hjob, rfl⟩
      obtain ⟨r, hr, hpending⟩ := mem_jobs.1 hjob
      exact ⟨r, hr, isPending_iff.2 ⟨_, hpending⟩⟩
    · rintro ⟨r, hr, hpending⟩
      obtain ⟨text, htext⟩ := isPending_iff.1 hpending
      exact ⟨⟨i, text⟩, mem_jobs.2 ⟨r, hr, htext⟩, rfl⟩
  rw [(nodup_index_jobs rs).count]
  simp only [hmem]

end Record

/-! ## Batches of records -/

/-- The jobs are those for the records that need a vector, one for each, at most `n` of them hold a
permit unless `n` is less than one, and nothing is sent for another record. -/
structure Setup.Guards (s : Setup σ κ) (n : Int) (rs : List Record) (b : Batch σ κ)
    (seen : List JobEvent) : Prop where
  guarded : s.IsGuarded b seen
  held_le : (b.held : Int) ≤ max 1 n
  one_job (i : Nat) :
    (b.jobs.map fun j => j.1.index).count i = if (rs[i]?).any Record.isPending then 1 else 0
  sends (i : Nat) (text : Text) (h : .sends i text ∈ seen) :
    ∃ r t, rs[i]? = some r ∧ r.embedding = none ∧ r.context.snippet = .text t ∧
      t.isBlank = false ∧ s.embedder.prepareText t = .ok text

theorem Record.snippet_of_pendingText {r : Record} {text : Text}
    (h : r.pendingText? = some text) :
    r.context.snippet = .text text ∧ text.isBlank = false := by
  have hembeddable : r.embeddable? = some text := by
    rw [pendingText?, embedding_of_pendingText h] at h
    exact h
  unfold embeddable? at hembeddable
  split at hembeddable
  · rename_i t hsnippet
    by_cases hblank : t.isBlank = true
    · simp [hblank] at hembeddable
    · simp only [hblank] at hembeddable
      cases hembeddable
      exact ⟨hsnippet, Bool.eq_false_iff.2 hblank⟩
  · cases hembeddable

namespace Setup

variable [Span κ] {s : Setup σ κ} {b : Batch σ κ} {n : Int} {rs : List Record} {state : σ}
  {order : List Nat}

theorem map_fst_of_follow_firstBatch (h : s.follow? order (firstBatch rs state) = some b) :
    b.jobs.map Prod.fst = Record.jobs rs :=
  (map_fst_of_follow h).trans (Batch.map_fst_start _ _)

theorem isGuarded_of_follow (h : s.follow? order (firstBatch rs state) = some b) :
    s.IsGuarded b (s.events order (firstBatch rs state)) := by
  have hindex : ((firstBatch rs state : Batch σ κ).jobs.map fun j => j.1.index) =
      (Record.jobs rs).map Job.index := by
    rw [← Batch.map_fst_start (κ := κ) (Record.jobs rs) state, List.map_map]
    rfl
  have hdistinct : ((firstBatch rs state : Batch σ κ).jobs.map fun j => j.1.index).Nodup :=
    hindex ▸ Record.nodup_index_jobs rs
  exact (isGuarded_start (Record.jobs rs) state).follow hdistinct h

/-- What is sent is the text of a record that needs a vector. -/
theorem exists_pending_of_sends (h : s.follow? order (firstBatch rs state) = some b) {i : Nat}
    {text : Text} (hsends : .sends i text ∈ s.events order (firstBatch rs state)) :
    ∃ r t, rs[i]? = some r ∧ r.pendingText? = some t ∧ s.embedder.prepareText t = .ok text := by
  obtain ⟨job, hjob, rfl, hprepare⟩ := (isGuarded_of_follow h).sends i text hsends
  rw [map_fst_of_follow_firstBatch h] at hjob
  obtain ⟨r, hr, hpending⟩ := Record.mem_jobs.1 hjob
  exact ⟨r, job.text, hr, hpending, hprepare⟩

theorem guards_of_follow (hpermits : s.permits = permitsOf n)
    (h : s.follow? order (firstBatch rs state) = some b) :
    s.Guards n rs b (s.events order (firstBatch rs state)) := by
  have hguarded := isGuarded_of_follow h
  refine ⟨hguarded, ?_, ?_, ?_⟩
  · have hle := hguarded.held_le
    rw [hpermits, permitsOf] at hle
    omega
  · intro i
    have hindex : b.jobs.map (fun j => j.1.index) = (Record.jobs rs).map Job.index := by
      rw [← map_fst_of_follow_firstBatch h, List.map_map]
      rfl
    rw [hindex, Record.count_index_jobs]
  · intro i text hsends
    obtain ⟨r, t, hr, hpending, hprepare⟩ := exists_pending_of_sends h hsends
    obtain ⟨hsnippet, hblank⟩ := Record.snippet_of_pendingText hpending
    exact ⟨r, t, hr, Record.embedding_of_pendingText hpending, hsnippet, hblank, hprepare⟩

/-- The batch after some turns, or after the last. -/
def batchAfter (s : Setup σ κ) (rs : List Record) (state : σ) (turns : Nat) : Batch σ κ :=
  (s.rounds turns
    ⟨firstBatch rs state, (List.range (Record.jobs rs).length).map .enter, [], 0⟩).batch

theorem exists_follow_batchAfter (s : Setup σ κ) (rs : List Record) (state : σ) (turns : Nat) :
    ∃ order, s.follow? order (firstBatch rs state) = some (s.batchAfter rs state turns) := by
  let first : Round σ κ :=
    ⟨firstBatch rs state, (List.range (Record.jobs rs).length).map .enter, [], 0⟩
  obtain ⟨order, horder, -⟩ := exists_follow_rounds (s := s) (r := first) turns
  exact ⟨order, horder⟩

theorem batchAfter_of_no_jobs (hjobs : Record.jobs rs = []) (turns : Nat) :
    s.batchAfter rs state turns = firstBatch rs state := by
  unfold batchAfter
  rw [hjobs]
  cases turns <;> rfl

/-- However the jobs for records take their steps, their permits are guarded at every moment. -/
structure RunsGuarded (s : Setup σ κ) (n : Int) (rs : List Record) (state : σ) : Prop where
  /-- They are in every batch that can be reached. -/
  guards (order : List Nat) (b : Batch σ κ) (h : s.follow? order (firstBatch rs state) = some b) :
    s.Guards n rs b (s.events order (firstBatch rs state))
  /-- The service is asked what is seen to be sent, and nothing else. -/
  asked (order : List Nat) :
    s.noting.follow? order ((firstBatch rs state).withLedger []) =
      (s.follow? order (firstBatch rs state)).map fun b =>
        b.withLedger (JobEvent.requests (s.events order (firstBatch rs state)))
  /-- The batch that takes turns is one of these after each turn. -/
  turns (turns : Nat) :
    ∃ order, s.follow? order (firstBatch rs state) = some (s.batchAfter rs state turns)

theorem runsGuarded (hpermits : s.permits = permitsOf n) : s.RunsGuarded n rs state where
  guards _ _ h := guards_of_follow hpermits h
  asked _ := follow?_noting
  turns turns := exists_follow_batchAfter s rs state turns

end Setup

namespace Surroundings

/-- Filling records takes turns at the steps of the jobs for them, and however these take their
steps the permits are guarded: no more jobs than `n`, and no more than one if `n` is less, hold a
permit at any moment, only jobs that have not ended hold one, and nothing is sent but for the
records that need a vector. -/
theorem fillRecords_runsGuarded (w w' : Surroundings σ) (settings : Value)
    (options : FillOptions) (e : Embedder) (n : Int) (policy : Backoff Double) (rs : List Record)
    (hembedder : options.embedderFor settings w = (.ok e, w'))
    (hpermits : options.permitsFor settings = .ok (.int n))
    (hpolicy : options.policyFor settings = .ok policy) :
    (w.setup e policy n).RunsGuarded n rs w.serviceState ∧
    (fillRecords settings options rs w).1 = .ok (Record.fillAll rs
      ((w.setup e policy n).batchAfter rs w.serviceState Setup.turnLimit).results) ∧
    (fillRecords settings options rs w).2.serviceState =
      ((w.setup e policy n).batchAfter rs w.serviceState Setup.turnLimit).state := by
  refine ⟨Setup.runsGuarded rfl, ?_⟩
  by_cases hjobs : Record.jobs rs = []
  · rw [fillRecords_of_no_jobs hjobs, Setup.batchAfter_of_no_jobs hjobs, Setup.results_firstBatch]
    exact ⟨rfl, rfl⟩
  · obtain ⟨embeddingClients, ⟨fault, hfault⟩ | ⟨e', he'⟩⟩ :=
      FillOptions.embedderFor_cases settings options w
    · cases hembedder.symm.trans hfault
    · cases hembedder.symm.trans he'
      rw [fillRecords_of_given hembedder hpermits hpolicy rfl hjobs]
      exact ⟨rfl, rfl⟩

theorem fillRecords_runsGuarded_threeRecords :
    oneAtATime.embedderFor (.object []) busySurroundings = (.ok smallEmbedder, busySurroundings) ∧
    oneAtATime.permitsFor (.object []) = .ok (.int 1) ∧
    oneAtATime.policyFor (.object []) = .ok Backoff.standard ∧
    (busySurroundings.setup smallEmbedder Backoff.standard 1).RunsGuarded 1 threeRecords
      busySurroundings.serviceState ∧
    (fillRecords (.object []) oneAtATime threeRecords busySurroundings).1 =
      .ok (Record.fillAll threeRecords
        ((busySurroundings.setup smallEmbedder Backoff.standard 1).batchAfter threeRecords
          busySurroundings.serviceState Setup.turnLimit).results) ∧
    (fillRecords (.object []) oneAtATime threeRecords busySurroundings).2.serviceState =
      ((busySurroundings.setup smallEmbedder Backoff.standard 1).batchAfter threeRecords
        busySurroundings.serviceState Setup.turnLimit).state := by
  have hembedder : oneAtATime.embedderFor (.object []) busySurroundings =
      (.ok smallEmbedder, busySurroundings) := rfl
  have hpermits : oneAtATime.permitsFor (.object []) = .ok (.int 1) := rfl
  have hpolicy : oneAtATime.policyFor (.object []) = .ok Backoff.standard := rfl
  exact ⟨hembedder, hpermits, hpolicy, fillRecords_runsGuarded busySurroundings busySurroundings
    (.object []) oneAtATime smallEmbedder 1 Backoff.standard threeRecords hembedder hpermits
    hpolicy⟩

/-- The first job takes the only permit, is refused and waits; the other cannot begin meanwhile. -/
example :
    let s := busySurroundings.setup smallEmbedder Backoff.standard 1
    let first := Setup.firstBatch threeRecords busySurroundings.serviceState
    s.events [0, 0] first = [.takes 0, .sends 0 "f()"] ∧
      ∃ b, s.follow? [0, 0] first = some b ∧ b.held = 1 ∧ s.step? b 1 = none := by
  refine ⟨rfl, _, rfl, rfl, rfl⟩

end Surroundings

end CodeCatalog
