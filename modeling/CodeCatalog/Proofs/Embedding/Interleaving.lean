import Mathlib.Algebra.Order.BigOperators.Group.Finset
import CodeCatalog.Embedding.Batch
import CodeCatalog.Proofs.Embedding.Apart
set_option autoImplicit false

/-!
# Interleavings

The jobs of a batch may take their steps in any order that the permits allow.  If the texts that
they send are distinct, what one job still has to do is not changed by the steps of the others: a
job that goes on alone from where it stands makes the same number of steps and ends with the same
vector.  So each step of a job takes one off the number of its own steps, and every run in which
all jobs end gives every job the vector that it would have got alone.
-/

namespace CodeCatalog

variable {σ ν κ : Type}

/-- All jobs have ended. -/
def Batch.IsComplete (b : Batch σ κ) : Prop := ∀ j ∈ b.jobs, ∃ v, j.2 = .ended v

theorem Batch.map_fst_start (jobs : List Job) (state : σ) :
    (Batch.start jobs state : Batch σ κ).jobs.map Prod.fst = jobs := by
  simp [Batch.start, Function.comp_def]

/-- The texts that are sent for jobs. -/
def Embedder.sentTexts (e : Embedder) (jobs : List Job) : List Text :=
  jobs.filterMap fun j => (e.prepareText j.text).toOption

/-- No text is sent for two jobs. -/
theorem Embedder.prepareText_ne_of_nodup {e : Embedder} {jobs : List Job} {i k : Nat} {j j' : Job}
    {u : Text} (hdistinct : (e.sentTexts jobs).Nodup) (hi : jobs[i]? = some j)
    (hk : jobs[k]? = some j') (hne : i ≠ k) (hu : e.prepareText j.text = .ok u) :
    e.prepareText j'.text ≠ .ok u := by
  intro hu'
  have hpairwise := List.pairwise_filterMap.1 hdistinct
  obtain ⟨hik, rfl⟩ := List.getElem?_eq_some_iff.1 hi
  obtain ⟨hkk, rfl⟩ := List.getElem?_eq_some_iff.1 hk
  have hapart := List.pairwise_iff_getElem.1 hpairwise
  rcases Nat.lt_or_gt_of_ne hne with hlt | hlt
  · exact hapart i k hik hkk hlt u (by rw [hu]; rfl) u (by rw [hu']; rfl) rfl
  · exact hapart k i hkk hik hlt u (by rw [hu']; rfl) u (by rw [hu]; rfl) rfl

namespace Setup

variable [Span κ] {s : Setup σ κ} {b b' : Batch σ κ} {i k : Nat} {job : Job} {text : Text}
  {p p' : Progress κ} {state state' : σ} {n : Nat} {v : Option (List Double)}
  {account : σ → Text → ν} {own : Text → Endpoint ν κ}

/-! ## Steps -/

/-- What the next step of a job does to its progress and to the service. -/
inductive Moves (s : Setup σ κ) (state : σ) (text : Text) : Progress κ → Progress κ → σ → Prop
  | enter : s.Moves state text .waiting (.active 1 Span.zero) state
  | request (attempt : Nat) (now : κ) :
    s.Moves state text (.active attempt now)
      (s.progressAfter attempt
        (Span.add now (s.embedder.embedText s.service text now state).takes)
        (s.embedder.embedText s.service text now state).outcome)
      (s.embedder.embedText s.service text now state).state

/-- A step moves one job, and leaves the others where they are. -/
theorem exists_moves_of_step (h : s.step? b i = some b') :
    ∃ job p p', b.jobs[i]? = some (job, p) ∧ s.Moves b.state job.text p p' b'.state ∧
      b'.jobs = b.jobs.set i (job, p') := by
  unfold step? at h
  split at h
  · rename_i job hjob
    split at h
    · cases h
      exact ⟨job, _, _, hjob, .enter, rfl⟩
    · cases h
  · rename_i job attempt now hjob
    cases h
    exact ⟨job, _, _, hjob, .request attempt now, rfl⟩
  · cases h

/-- A step leaves the jobs what they are. -/
theorem map_fst_of_step (h : s.step? b i = some b') :
    b'.jobs.map Prod.fst = b.jobs.map Prod.fst := by
  obtain ⟨job, p, p', hjob, _, hjobs⟩ := exists_moves_of_step h
  have hfst : (b.jobs.map Prod.fst)[i]? = some job := by simp [hjob]
  obtain ⟨hi, hget⟩ := List.getElem?_eq_some_iff.1 hfst
  rw [hjobs, List.map_set]
  simp only [← hget, List.set_getElem_self]

/-- Unless all jobs have ended, one of them can make a step: those that hold a permit can, and if
there are none then a permit is free. -/
theorem exists_step (hpermits : 0 < s.permits) (hb : ¬ b.IsComplete) :
    ∃ i b', s.step? b i = some b' := by
  by_cases hheld : ∃ j ∈ b.jobs, j.2.isActive
  · obtain ⟨⟨job, p⟩, hj, hactive⟩ := hheld
    obtain ⟨i, hi⟩ := List.mem_iff_getElem?.1 hj
    cases p with
    | active attempt now =>
      simp only [step?]
      exact ⟨i, _, by rw [hi]⟩
    | _ => cases hactive
  · have hnone : b.held = 0 := by
      refine List.countP_eq_zero.2 fun j hj hactive => hheld ⟨j, hj, hactive⟩
    obtain ⟨⟨job, p⟩, hj, hended⟩ : ∃ j ∈ b.jobs, ¬ ∃ v, j.2 = .ended v := by
      simpa [Batch.IsComplete] using hb
    obtain ⟨i, hi⟩ := List.mem_iff_getElem?.1 hj
    cases p with
    | waiting =>
      refine ⟨i, b.advance i job (.active 1 Span.zero) b.state, ?_⟩
      simp [step?, hi, hnone, hpermits]
    | active attempt now => exact absurd ⟨_, hj, rfl⟩ hheld
    | ended v => exact absurd ⟨v, rfl⟩ hended

theorem progressAfter_of_last {attempt : Nat} {elapsed : κ} {outcome : Outcome (List Double)}
    (h : s.policy.waitAfter? Fault.isTransient s.draw attempt elapsed outcome = none) :
    s.progressAfter attempt elapsed outcome = .ended outcome.toOption := by
  cases outcome with
  | ok vector => rfl
  | error f =>
    by_cases hf : f.isTransient = true <;>
      cases hverdict : s.policy.verdict s.draw attempt elapsed <;>
        simp_all [progressAfter, Backoff.waitAfter?, Except.toOption]

theorem progressAfter_of_wait {attempt : Nat} {elapsed wait : κ}
    {outcome : Outcome (List Double)}
    (h : s.policy.waitAfter? Fault.isTransient s.draw attempt elapsed outcome = some wait) :
    s.progressAfter attempt elapsed outcome = .active (attempt + 1) (Span.add elapsed wait) := by
  cases outcome with
  | ok vector => cases h
  | error f =>
    by_cases hf : f.isTransient = true <;>
      cases hverdict : s.policy.verdict s.draw attempt elapsed <;>
        simp_all [progressAfter, Backoff.waitAfter?]

/-- A job that waits takes a permit and asks nothing. -/
theorem Moves.of_waiting (h : s.Moves state text .waiting p' state') :
    p' = .active 1 Span.zero ∧ state' = state := by
  cases h
  exact ⟨rfl, rfl⟩

/-- A job that holds a permit goes on or ends as its request came out. -/
theorem Moves.of_active {attempt : Nat} {now : κ}
    (h : s.Moves state text (.active attempt now) p' state') :
    p' = s.progressAfter attempt
      (Span.add now (s.embedder.embedText s.service text now state).takes)
      (s.embedder.embedText s.service text now state).outcome := by
  cases h
  rfl

/-- No job waits for a permit after a step. -/
theorem Moves.ne_waiting (h : s.Moves state text p p' state') : p' ≠ .waiting := by
  cases h with
  | enter => simp
  | request attempt now =>
    cases hwait : s.policy.waitAfter? Fault.isTransient s.draw attempt
        (Span.add now (s.embedder.embedText s.service text now state).takes)
        (s.embedder.embedText s.service text now state).outcome with
    | none => simp [progressAfter_of_last hwait]
    | some wait => simp [progressAfter_of_wait hwait]

/-! ## Going on alone -/

/-- The requests for a text from one of them on, if nothing else is asked of the service. -/
def aloneFrom (s : Setup σ κ) (own : Text → Endpoint ν κ) (text : Text) (limit attempt : Nat)
    (now : κ) (known : ν) : Option (Retried ν κ Fault (List Double)) :=
  s.policy.retryFrom Fault.isTransient (fun _ => s.draw)
    (s.embedder.embedText (own (s.embedder.sentText text)) text) limit attempt now known

/-- The first of the requests is answered as it would be among others. -/
theorem aloneFrom_succ_eq_some (hservice : s.service.GoesByText s.embedder.model account own)
    {limit attempt : Nat} {now : κ} {r : Retried ν κ Fault (List Double)} :
    let call := s.embedder.embedText s.service text now state
    let elapsed := Span.add now call.takes
    let known := account call.state (s.embedder.sentText text)
    s.aloneFrom own text (limit + 1) attempt now (account state (s.embedder.sentText text)) =
        some r ↔
      (s.policy.waitAfter? Fault.isTransient s.draw attempt elapsed call.outcome = none ∧
        r = ⟨1, [], elapsed, known, call.outcome⟩) ∨
      ∃ wait rest,
        s.policy.waitAfter? Fault.isTransient s.draw attempt elapsed call.outcome = some wait ∧
        s.aloneFrom own text limit (attempt + 1) (Span.add elapsed wait) known = some rest ∧
        r = rest.after wait := by
  refine Backoff.retryFrom_succ_eq_some.trans ?_
  rw [← s.embedder.embedText_mapState hservice now state]
  rfl

/-- A job that goes on alone ends after a number of steps, with a vector or without. -/
inductive Ends (s : Setup σ κ) (own : Text → Endpoint ν κ) (accounts : Text → ν) (text : Text) :
    Progress κ → Nat → Option (List Double) → Prop
  | waiting {limit : Nat} {r : Retried ν κ Fault (List Double)}
    (h : s.aloneFrom own text limit 1 Span.zero (accounts (s.embedder.sentText text)) = some r) :
    s.Ends own accounts text .waiting (r.calls + 1) r.outcome.toOption
  | active {limit attempt : Nat} {now : κ} {r : Retried ν κ Fault (List Double)}
    (h : s.aloneFrom own text limit attempt now (accounts (s.embedder.sentText text)) = some r) :
    s.Ends own accounts text (.active attempt now) r.calls r.outcome.toOption
  | ended (vector : Option (List Double)) : s.Ends own accounts text (.ended vector) 0 vector

/-- A step of a job takes one off its steps and does not change its end. -/
theorem ends_iff_of_moves (hservice : s.service.GoesByText s.embedder.model account own)
    (h : s.Moves state text p p' state') :
    s.Ends own (account state) text p n v ↔
      ∃ m, n = m + 1 ∧ s.Ends own (account state') text p' m v := by
  cases h with
  | enter =>
    constructor
    · rintro ⟨hrun⟩
      exact ⟨_, rfl, .active hrun⟩
    · rintro ⟨_, rfl, hends⟩
      cases hends with
      | active hrun => exact .waiting hrun
  | request attempt now =>
    constructor
    · intro hends
      cases hends with
      | @active limit _ _ r hrun =>
        cases limit with
        | zero => cases hrun
        | succ limit =>
          rcases (aloneFrom_succ_eq_some hservice).1 hrun with
            ⟨hlast, rfl⟩ | ⟨wait, rest, hwait, hrest, rfl⟩
          · refine ⟨0, rfl, ?_⟩
            rw [progressAfter_of_last hlast]
            exact .ended _
          · refine ⟨rest.calls, rfl, ?_⟩
            rw [progressAfter_of_wait hwait]
            exact .active hrest
    · rintro ⟨m, rfl, hends⟩
      cases hwait : s.policy.waitAfter? Fault.isTransient s.draw attempt
          (Span.add now (s.embedder.embedText s.service text now state).takes)
          (s.embedder.embedText s.service text now state).outcome with
      | none =>
        rw [progressAfter_of_last hwait] at hends
        cases hends
        have hrun : s.aloneFrom own text 1 attempt now
            (account state (s.embedder.sentText text)) = some _ :=
          (aloneFrom_succ_eq_some hservice).2 (.inl ⟨hwait, rfl⟩)
        exact .active hrun
      | some wait =>
        rw [progressAfter_of_wait hwait] at hends
        cases hends with
        | @active limit _ _ rest hrest =>
          have hrun := (aloneFrom_succ_eq_some hservice).2 (.inr ⟨wait, rest, hwait, hrest, rfl⟩)
          exact .active hrun

/-- A text that cannot be sent ends alike whatever the service knows of it. -/
theorem exists_aloneFrom_of_error {limit attempt : Nat} {now : κ} {known known' : ν}
    {r : Retried ν κ Fault (List Double)} {fault : DataFault}
    (hprepare : s.embedder.prepareText text = .error fault)
    (h : s.aloneFrom own text limit attempt now known = some r) :
    ∃ r', s.aloneFrom own text limit attempt now known' = some r' ∧ r'.calls = r.calls ∧
      r'.outcome = r.outcome := by
  refine ⟨r.mapState fun _ => known', ?_, rfl, rfl⟩
  have hrun :
      (s.aloneFrom own text limit attempt now known).map (Retried.mapState fun _ => known') =
        s.aloneFrom own text limit attempt now known' :=
    Backoff.retryFrom_mapState fun now state => by
      simp only [Embedder.embedText_of_error hprepare, Called.mapState]
  exact hrun.symm.trans (congrArg _ h)

/-- Only what is known of the text that is sent counts. -/
theorem Ends.congr {accounts accounts' : Text → ν}
    (haccounts : ∀ u, s.embedder.prepareText text = .ok u → accounts u = accounts' u)
    (h : s.Ends own accounts text p n v) : s.Ends own accounts' text p n v := by
  cases hprepare : s.embedder.prepareText text with
  | ok sent =>
    have hknown : accounts (s.embedder.sentText text) = accounts' (s.embedder.sentText text) := by
      rw [Embedder.sentText_of_prepareText hprepare]
      exact haccounts sent hprepare
    cases h with
    | waiting hrun => exact .waiting (hknown ▸ hrun)
    | active hrun => exact .active (hknown ▸ hrun)
    | ended _ => exact .ended _
  | error fault =>
    cases h with
    | waiting hrun =>
      obtain ⟨r', hrun', hcalls, houtcome⟩ := exists_aloneFrom_of_error hprepare hrun
      rw [← hcalls, ← houtcome]
      exact .waiting hrun'
    | active hrun =>
      obtain ⟨r', hrun', hcalls, houtcome⟩ := exists_aloneFrom_of_error hprepare hrun
      rw [← hcalls, ← houtcome]
      exact .active hrun'
    | ended _ => exact .ended _

/-- A step of a job leaves the accounts of the texts of other jobs alone. -/
theorem account_of_moves (hservice : s.service.GoesByText s.embedder.model account own)
    (h : s.Moves state text p p' state') {u : Text} (hu : s.embedder.prepareText text ≠ .ok u) :
    account state' u = account state u := by
  cases h with
  | enter => rfl
  | request attempt now => exact Embedder.account_embedText hservice now state hu

/-! ## Runs -/

/-- The batch after steps of given jobs in their order, if they can make them. -/
def follow? (s : Setup σ κ) (order : List Nat) (b : Batch σ κ) : Option (Batch σ κ) :=
  order.foldlM s.step? b

theorem follow?_cons {order : List Nat} :
    s.follow? (i :: order) b = (s.step? b i).bind (s.follow? order) := rfl

theorem follow_append {c : Batch σ κ} {order order' : List Nat} (h : s.follow? order b = some b')
    (h' : s.follow? order' b' = some c) : s.follow? (order ++ order') b = some c := by
  rw [follow?, List.foldlM_append]
  exact Option.bind_eq_some_iff.2 ⟨b', h, h'⟩

theorem follow?_singleton : s.follow? [i] b = s.step? b i := by
  simp [follow?]

theorem map_fst_of_follow {order : List Nat} (h : s.follow? order b = some b') :
    b'.jobs.map Prod.fst = b.jobs.map Prod.fst := by
  induction order generalizing b with
  | nil => cases h; rfl
  | cons i order ih =>
    obtain ⟨c, hc, h⟩ := Option.bind_eq_some_iff.1 (follow?_cons.symm.trans h)
    exact (ih h).trans (map_fst_of_step hc)

/-- A step takes one off the steps of its job, and leaves those of the others alone. -/
theorem ends_iff_of_step (hservice : s.service.GoesByText s.embedder.model account own)
    (hdistinct : (s.embedder.sentTexts (b.jobs.map Prod.fst)).Nodup) (h : s.step? b i = some b')
    (hk : b.jobs[k]? = some (job, p)) :
    ∃ p', b'.jobs[k]? = some (job, p') ∧ ∀ n v,
      s.Ends own (account b.state) job.text p n v ↔
        ∃ m, n = m + (if i = k then 1 else 0) ∧
          s.Ends own (account b'.state) job.text p' m v := by
  obtain ⟨moved, q, q', hi, hmoves, hjobs⟩ := exists_moves_of_step h
  by_cases hik : i = k
  · subst hik
    cases hi.symm.trans hk
    refine ⟨q', ?_, fun n v => ?_⟩
    · obtain ⟨hlt, _⟩ := List.getElem?_eq_some_iff.1 hk
      simp [hjobs, hlt]
    · simpa using ends_iff_of_moves hservice hmoves
  · refine ⟨p, by rw [hjobs, List.getElem?_set_ne hik, hk], fun n v => ?_⟩
    have hjob : (b.jobs.map Prod.fst)[k]? = some job := by simp [hk]
    have hmoved : (b.jobs.map Prod.fst)[i]? = some moved := by simp [hi]
    have hapart : ∀ u, s.embedder.prepareText job.text = .ok u →
        account b'.state u = account b.state u := fun u hu =>
      account_of_moves hservice hmoves
        (Embedder.prepareText_ne_of_nodup hdistinct hjob hmoved (Ne.symm hik) hu)
    simp only [if_neg hik, Nat.add_zero, exists_eq_left']
    exact ⟨Ends.congr fun u hu => (hapart u hu).symm, Ends.congr hapart⟩

/-- A run takes off the steps of a job as many as it makes of that job. -/
theorem ends_iff_of_follow (hservice : s.service.GoesByText s.embedder.model account own)
    {order : List Nat} (hdistinct : (s.embedder.sentTexts (b.jobs.map Prod.fst)).Nodup)
    (h : s.follow? order b = some b') (hk : b.jobs[k]? = some (job, p)) :
    ∃ p', b'.jobs[k]? = some (job, p') ∧ ∀ n v,
      s.Ends own (account b.state) job.text p n v ↔
        ∃ m, n = m + order.count k ∧ s.Ends own (account b'.state) job.text p' m v := by
  induction order generalizing b p with
  | nil =>
    cases h
    exact ⟨p, hk, fun n v => by simp⟩
  | cons i order ih =>
    obtain ⟨c, hc, h⟩ := Option.bind_eq_some_iff.1 (follow?_cons.symm.trans h)
    obtain ⟨q, hq, hstep⟩ := ends_iff_of_step hservice hdistinct hc hk
    obtain ⟨p', hp', hrest⟩ := ih (by rwa [map_fst_of_step hc]) h hq
    refine ⟨p', hp', fun n v => ?_⟩
    rw [hstep, List.count_cons]
    simp only [hrest, beq_iff_eq]
    constructor
    · rintro ⟨_, rfl, m, rfl, hends⟩
      exact ⟨m, by omega, hends⟩
    · rintro ⟨m, rfl, hends⟩
      exact ⟨_, by omega, m, rfl, hends⟩

/-- Only jobs of the batch make steps. -/
theorem lt_length_of_follow {order : List Nat} (h : s.follow? order b = some b') :
    ∀ i ∈ order, i < b.jobs.length := by
  induction order generalizing b with
  | nil => simp
  | cons i order ih =>
    obtain ⟨c, hc, h⟩ := Option.bind_eq_some_iff.1 (follow?_cons.symm.trans h)
    have hlen : c.jobs.length = b.jobs.length := by
      simpa using congrArg List.length (map_fst_of_step hc)
    obtain ⟨_, _, _, hi, _⟩ := exists_moves_of_step hc
    obtain ⟨hlt, _⟩ := List.getElem?_eq_some_iff.1 hi
    exact List.forall_mem_cons.2 ⟨hlt, hlen ▸ ih h⟩

/-! ## Runs from the start -/

/-- The requests for a text end with a vector or without, if nothing else is asked. -/
def EndsAlone (s : Setup σ κ) (own : Text → Endpoint ν κ) (accounts : Text → ν) (text : Text)
    (v : Option (List Double)) : Prop :=
  ∃ limit r, s.aloneFrom own text limit 1 Span.zero (accounts (s.embedder.sentText text)) =
    some r ∧ r.outcome.toOption = v

theorem exists_ends_waiting_iff {accounts : Text → ν} :
    (∃ n, s.Ends own accounts text .waiting n v) ↔ s.EndsAlone own accounts text v := by
  constructor
  · rintro ⟨_, hends⟩
    cases hends with
    | waiting hrun => exact ⟨_, _, hrun, rfl⟩
  · rintro ⟨limit, r, hrun, rfl⟩
    exact ⟨_, .waiting hrun⟩

/-- A vector that the requests for a text end with is the one that the service gave for what is
sent for the text. -/
theorem EndsAlone.exists_item {accounts : Text → ν} {vector : List Double}
    (h : s.EndsAlone own accounts text (some vector)) :
    ∃ known now item,
      ((own (s.embedder.sentText text)).send known now s.embedder.model
        [s.embedder.sentText text]).reply = .ok [item] ∧ item.vector = vector := by
  obtain ⟨limit, r, hr, hvector⟩ := h
  obtain ⟨now, known, hcall⟩ := Backoff.exists_call hr
  cases hprepare : s.embedder.prepareText text with
  | error fault =>
    rw [← hcall, Embedder.embedText_of_error hprepare] at hvector
    cases hvector
  | ok sent =>
    rw [Embedder.sentText_of_prepareText hprepare] at hcall ⊢
    rw [Embedder.embedText_of_ok hprepare] at hcall
    cases houtcome : r.outcome with
    | error f =>
      rw [houtcome] at hvector
      cases hvector
    | ok v =>
      obtain ⟨item, hitem, hv⟩ := Embedder.exists_item_of_vectorOf (hcall.trans houtcome)
      rw [houtcome] at hvector
      exact ⟨known, now, item, hitem, hv.trans (Option.some.inj hvector)⟩

variable {jobs : List Job} {order : List Nat}

/-- When all jobs have ended, each has the vector with which it ends alone. -/
theorem exists_endsAlone_of_complete (hservice : s.service.GoesByText s.embedder.model account own)
    (hdistinct : (s.embedder.sentTexts jobs).Nodup)
    (h : s.follow? order (Batch.start jobs state) = some b) (hb : b.IsComplete)
    (hk : jobs[k]? = some job) :
    ∃ v, b.jobs[k]? = some (job, .ended v) ∧ s.EndsAlone own (account state) job.text v := by
  have hstart : (Batch.start jobs state : Batch σ κ).jobs[k]? = some (job, .waiting) := by
    simp [Batch.start, hk]
  obtain ⟨p, hp, hends⟩ := ends_iff_of_follow hservice (by rwa [Batch.map_fst_start]) h hstart
  obtain ⟨v, rfl⟩ : ∃ v, p = .ended v := hb _ (List.mem_of_getElem? hp)
  refine ⟨v, hp, exists_ends_waiting_iff.1 ⟨_, (hends _ v).2 ⟨0, rfl, .ended v⟩⟩⟩

/-- If all jobs end alone then there is a bound on the steps of all runs. -/
theorem exists_length_le (hservice : s.service.GoesByText s.embedder.model account own)
    (hdistinct : (s.embedder.sentTexts jobs).Nodup)
    (hends : ∀ job ∈ jobs, ∃ v, s.EndsAlone own (account state) job.text v) :
    ∃ total, ∀ order b, s.follow? order (Batch.start jobs state) = some b →
      order.length ≤ total := by
  have hsteps : ∀ k : Nat, ∃ n, ∀ job : Job, jobs[k]? = some job →
      ∃ v, s.Ends own (account state) job.text .waiting n v := by
    intro k
    cases hk : jobs[k]? with
    | none => exact ⟨0, by simp⟩
    | some job =>
      obtain ⟨v, hv⟩ := hends job (List.mem_of_getElem? hk)
      obtain ⟨n, hn⟩ := exists_ends_waiting_iff.2 hv
      exact ⟨n, fun _ h => by cases h; exact ⟨v, hn⟩⟩
  choose steps hsteps using hsteps
  refine ⟨∑ k ∈ Finset.range jobs.length, steps k, fun order b h => ?_⟩
  have hmem : ∀ k ∈ order, k ∈ Finset.range jobs.length := fun k hk => by
    simpa [Batch.start] using lt_length_of_follow h k hk
  have hcount : ∀ k ∈ Finset.range jobs.length, order.count k ≤ steps k := by
    intro k hk
    obtain ⟨job, hjob⟩ : ∃ job, jobs[k]? = some job :=
      ⟨_, List.getElem?_eq_getElem (Finset.mem_range.1 hk)⟩
    have hstart : (Batch.start jobs state : Batch σ κ).jobs[k]? = some (job, .waiting) := by
      simp [Batch.start, hjob]
    obtain ⟨v, hv⟩ := hsteps k job hjob
    obtain ⟨_, _, hiff⟩ := ends_iff_of_follow hservice (by rwa [Batch.map_fst_start]) h hstart
    obtain ⟨m, hm, _⟩ := (hiff _ v).1 hv
    omega
  calc order.length = ∑ k ∈ Finset.range jobs.length, order.count k := by
        simpa using (Multiset.sum_count_eq_card (s := Finset.range jobs.length) (m := ↑order)
          (by simpa using hmem)).symm
    _ ≤ ∑ k ∈ Finset.range jobs.length, steps k := Finset.sum_le_sum hcount

end Setup

end CodeCatalog
