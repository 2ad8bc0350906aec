import Mathlib.Data.List.Forall2
import CodeCatalog.Embedding.Fill
import CodeCatalog.Proofs.Embedding.Turns
import CodeCatalog.Proofs.Store.Calls
import CodeCatalog.Proofs.Surroundings
set_option autoImplicit false

/-!
# Filled records

Whatever order the jobs of a batch take, the records are filled as if they were taken one after the
other: each record that needs a vector gets the one with which its requests end if nothing else is
asked, or none if they end in a fault, and everything else stays as it is.
-/

namespace CodeCatalog

variable {σ ν κ : Type}

namespace Record

/-- The text for which a record needs a vector. -/
def pendingText? (r : Record) : Option Text :=
  if r.embedding.isNone then r.embeddable? else none

/-- The jobs for the records from a position on. -/
def jobsFrom (k : Nat) (rs : List Record) : List Job :=
  (rs.zipIdx k).filterMap fun r => r.1.pendingText?.map fun t => ⟨r.2, t⟩

theorem jobs_eq_jobsFrom (rs : List Record) : jobs rs = jobsFrom 0 rs := by
  refine List.filterMap_congr fun r _ => ?_
  cases h : r.1.embedding <;> simp [pendingText?, h]

theorem exists_pending_of_mem_jobs {rs : List Record} {job : Job} (h : job ∈ jobs rs) :
    ∃ r ∈ rs, r.pendingText? = some job.text := by
  rw [jobs_eq_jobsFrom] at h
  obtain ⟨⟨r, i⟩, hr, hjob⟩ := List.mem_filterMap.1 h
  obtain ⟨text, hpending, rfl⟩ := Option.map_eq_some_iff.1 hjob
  exact ⟨r, List.fst_mem_of_mem_zipIdx hr, hpending⟩

theorem embedding_of_pendingText {r : Record} {text : Text} (h : r.pendingText? = some text) :
    r.embedding = none := by
  cases he : r.embedding with
  | none => rfl
  | some _ => simp [pendingText?, he] at h

/-- A record is filled: it stays as it is if it needs no vector, and otherwise it gets what its text
comes to, and nothing else of it changes. -/
inductive IsFilled (comesTo : Text → Option (List Double) → Prop) (r : Record) : Record → Prop
  | kept (h : r.pendingText? = none) : IsFilled comesTo r r
  | embedded {text : Text} {v : Option (List Double)} (h : r.pendingText? = some text)
    (hv : comesTo text v) : IsFilled comesTo r { r with embedding := v }

theorem isFilled_iff_of_none {comesTo : Text → Option (List Double) → Prop} {r r' : Record}
    (h : r.pendingText? = none) : IsFilled comesTo r r' ↔ r' = r := by
  constructor
  · rintro (_ | ⟨hsome, _⟩)
    · rfl
    · cases h.symm.trans hsome
  · rintro rfl
    exact .kept h

theorem isFilled_iff_of_some {comesTo : Text → Option (List Double) → Prop} {r r' : Record}
    {text : Text} (h : r.pendingText? = some text) :
    IsFilled comesTo r r' ↔ ∃ v, comesTo text v ∧ r' = { r with embedding := v } := by
  constructor
  · rintro (hnone | ⟨hsome, hv⟩)
    · cases h.symm.trans hnone
    · cases h.symm.trans hsome
      exact ⟨_, hv, rfl⟩
  · rintro ⟨v, hv, rfl⟩
    exact .embedded h hv

/-- The text of every record that needs a vector comes to something when the records are filled. -/
theorem exists_comesTo {comesTo : Text → Option (List Double) → Prop} {rs filled : List Record}
    (h : List.Forall₂ (IsFilled comesTo) rs filled) {r : Record} (hr : r ∈ rs) {text : Text}
    (hpending : r.pendingText? = some text) : ∃ v, comesTo text v := by
  induction h with
  | nil => cases hr
  | cons hfilled _ ih =>
    rcases List.mem_cons.1 hr with rfl | hr
    · obtain ⟨v, hv, _⟩ := (isFilled_iff_of_some hpending).1 hfilled
      exact ⟨v, hv⟩
    · exact ih hr

/-! ## Vectors for positions -/

theorem jobsFrom_cons_of_none {r : Record} (h : r.pendingText? = none) (k : Nat)
    (rs : List Record) : jobsFrom k (r :: rs) = jobsFrom (k + 1) rs := by
  simp [jobsFrom, h]

theorem jobsFrom_cons_of_some {r : Record} {text : Text} (h : r.pendingText? = some text) (k : Nat)
    (rs : List Record) : jobsFrom k (r :: rs) = ⟨k, text⟩ :: jobsFrom (k + 1) rs := by
  simp [jobsFrom, h]

theorem modify_length_append (before rest : List Record) (r : Record) (f : Record → Record) :
    (before ++ r :: rest).modify before.length f = before ++ f r :: rest := by
  induction before with
  | nil => rfl
  | cons x before ih => simpa using ih

/-- A job that has ended gives its record what it ended with, before the others do. -/
theorem fillAll_results_cons {before rest : List Record} {r : Record} {text : Text}
    (hr : r.embedding = none) (v : Option (List Double)) (steps : List (Job × Progress κ))
    (state : σ) :
    fillAll (before ++ r :: rest)
        (Batch.results ⟨(⟨before.length, text⟩, .ended v) :: steps, state⟩) =
      fillAll (before ++ { r with embedding := v } :: rest) (Batch.results ⟨steps, state⟩) := by
  cases v with
  | none =>
    have hsame : { r with embedding := none } = r := by rw [← hr]
    rw [hsame]
    rfl
  | some vector =>
    have hfill : fill vector r = { r with embedding := some vector } := by simp [fill, hr]
    have hresults : Batch.results (⟨((⟨before.length, text⟩ : Job),
        (.ended (some vector) : Progress κ)) :: steps, state⟩ : Batch σ κ) =
        (before.length, vector) :: Batch.results ⟨steps, state⟩ := rfl
    rw [hresults, fillAll, List.foldl_cons, modify_length_append, hfill]
    rfl

/-- The vectors of jobs that have ended go to the records of the jobs. -/
theorem exists_fillAll_results {comesTo : Text → Option (List Double) → Prop} {state : σ}
    {before rs : List Record} {steps : List (Job × Progress κ)}
    (hjobs : steps.map Prod.fst = jobsFrom before.length rs)
    (hended : ∀ j ∈ steps, ∃ v, j.2 = .ended v ∧ comesTo j.1.text v) :
    ∃ filled, fillAll (before ++ rs) (Batch.results ⟨steps, state⟩) = before ++ filled ∧
      List.Forall₂ (IsFilled comesTo) rs filled := by
  -- The records before are filled already, and stand for the positions of the others.
  induction rs generalizing before steps with
  | nil =>
    obtain rfl : steps = [] := by simpa [jobsFrom] using hjobs
    exact ⟨[], rfl, .nil⟩
  | cons r rest ih =>
    cases hpending : r.pendingText? with
    | none =>
      rw [jobsFrom_cons_of_none hpending] at hjobs
      have hafter : steps.map Prod.fst = jobsFrom (before ++ [r]).length rest := by
        simpa using hjobs
      obtain ⟨filled, hfilled, hall⟩ := ih hafter hended
      exact ⟨r :: filled, by simpa using hfilled, .cons (.kept hpending) hall⟩
    | some text =>
      rw [jobsFrom_cons_of_some hpending, List.map_eq_cons_iff] at hjobs
      obtain ⟨⟨job, p⟩, steps, rfl, rfl, hjobs⟩ := hjobs
      obtain ⟨⟨v, rfl, hv⟩, hothers⟩ := List.forall_mem_cons.1 hended
      have hafter : steps.map Prod.fst =
          jobsFrom (before ++ [{ r with embedding := v }]).length rest := by
        simpa using hjobs
      obtain ⟨filled, hfilled, hall⟩ := ih hafter hothers
      refine ⟨{ r with embedding := v } :: filled, ?_, .cons (.embedded hpending hv) hall⟩
      rw [fillAll_results_cons (embedding_of_pendingText hpending)]
      simpa using hfilled

end Record

/-! ## Filled records, however a batch ends -/

/-- The vector of a job; a job that has not ended has none. -/
def Progress.vector? : Progress κ → Option (List Double)
  | .ended v => v
  | _ => none

/-- A batch with every job ended where it is. -/
def Batch.ended (b : Batch σ κ) : Batch σ κ :=
  ⟨b.jobs.map fun j => (j.1, .ended j.2.vector?), b.state⟩

theorem Batch.results_ended (b : Batch σ κ) : b.ended.results = b.results := by
  unfold results ended
  rw [List.filterMap_map]
  refine List.filterMap_congr fun j _ => ?_
  obtain ⟨job, _ | _ | (_ | v)⟩ := j <;> rfl

namespace Record

/-- A record is as it was, but for a vector if it needs one. -/
abbrev MayBeFilled : Record → Record → Prop := IsFilled fun _ _ => True

theorem forall₂_mayBeFilled {b : Batch σ κ} {rs : List Record}
    (h : b.jobs.map Prod.fst = jobs rs) :
    List.Forall₂ MayBeFilled rs (fillAll rs b.results) := by
  have hjobs : b.ended.jobs.map Prod.fst = jobsFrom ([] : List Record).length rs := by
    rw [Batch.ended, List.map_map]
    exact h.trans (jobs_eq_jobsFrom rs)
  have hended : ∀ j ∈ b.ended.jobs, ∃ v, j.2 = .ended v ∧ True := by
    intro j hj
    obtain ⟨j', -, rfl⟩ := List.mem_map.1 hj
    exact ⟨_, rfl, trivial⟩
  have hfill : ∃ filled, fillAll ([] ++ rs) b.ended.results = [] ++ filled ∧
      List.Forall₂ MayBeFilled rs filled := exists_fillAll_results hjobs hended
  obtain ⟨filled, hfilled, hall⟩ := hfill
  rw [Batch.results_ended] at hfilled
  have hsame : fillAll rs b.results = filled := hfilled
  rwa [hsame]

theorem isPending_iff {r : Record} : r.isPending = true ↔ ∃ text, r.pendingText? = some text := by
  rw [← Option.isSome_iff_exists, isPending, pendingText?]
  by_cases h : r.embedding.isNone = true <;> simp [h]

end Record

/-! ## The texts of records -/

/-- The texts that are sent for the records that need a vector. -/
def Embedder.requestedTexts (e : Embedder) (rs : List Record) : List Text :=
  rs.filterMap fun r => r.pendingText?.bind fun t => (e.prepareText t).toOption

theorem Embedder.requestedTexts_cons_of_none (e : Embedder) {r : Record}
    (h : r.pendingText? = none) (rs : List Record) :
    e.requestedTexts (r :: rs) = e.requestedTexts rs := by
  simp [requestedTexts, h]

theorem Embedder.requestedTexts_cons_of_some (e : Embedder) {r : Record} {text : Text}
    (h : r.pendingText? = some text) (rs : List Record) :
    e.requestedTexts (r :: rs) =
      (e.prepareText text).toOption.toList ++ e.requestedTexts rs := by
  cases hsent : (e.prepareText text).toOption <;> simp [requestedTexts, h, hsent]

theorem Embedder.sentTexts_jobs (e : Embedder) (rs : List Record) :
    e.sentTexts (Record.jobs rs) = e.requestedTexts rs := by
  have hfrom : ∀ k, e.sentTexts (Record.jobsFrom k rs) = e.requestedTexts rs := by
    induction rs with
    | nil => exact fun _ => rfl
    | cons r rest ih =>
      intro k
      cases hpending : r.pendingText? with
      | none =>
        rw [Record.jobsFrom_cons_of_none hpending, e.requestedTexts_cons_of_none hpending, ih]
      | some text =>
        rw [Record.jobsFrom_cons_of_some hpending, e.requestedTexts_cons_of_some hpending,
          ← ih (k + 1)]
        cases hsent : (e.prepareText text).toOption <;> simp [sentTexts, hsent]
  rw [Record.jobs_eq_jobsFrom, hfrom]

/-! ## One after the other -/

namespace Setup

variable [Span κ] {s : Setup σ κ} {account : σ → Text → ν} {own : Text → Endpoint ν κ}
  {rs filled : List Record} {state state' : σ} {text : Text} {v : Option (List Double)}
  {limit limit' : Nat}

/-- The requests for a text up to the last. -/
def retry (s : Setup σ κ) (limit : Nat) (text : Text) (state : σ) :
    Option (Retried σ κ Fault (List Double)) :=
  s.policy.retry Fault.isTransient s.draw (s.embedder.embedText s.service text) limit state

/-- Fills records one after the other; nothing if one of them needs more than `limit` requests. -/
def fillInTurn (s : Setup σ κ) (limit : Nat) : List Record → σ → Option (List Record × σ)
  | [], state => some ([], state)
  | r :: rest, state =>
    match r.pendingText? with
    | none => (s.fillInTurn limit rest state).map fun done => (r :: done.1, done.2)
    | some text =>
      (s.retry limit text state).bind fun retried =>
        (s.fillInTurn limit rest retried.state).map fun done =>
          ({ r with embedding := retried.outcome.toOption } :: done.1, done.2)

/-- What the requests for a text come to is told by the account of what is sent for it. -/
theorem exists_retry_iff (hservice : s.service.GoesByText s.embedder.model account own) :
    (∃ limit r, s.retry limit text state = some r ∧ r.outcome.toOption = v) ↔
      s.EndsAlone own (account state) text v := by
  have halone : ∀ limit, (s.retry limit text state).map
      (Retried.mapState (account · (s.embedder.sentText text))) =
        s.aloneFrom own text limit 1 Span.zero (account state (s.embedder.sentText text)) :=
    fun limit => Backoff.retryFrom_mapState (Embedder.embedText_mapState hservice)
  constructor
  · rintro ⟨limit, r, hr, rfl⟩
    exact ⟨limit, _, (halone limit).symm.trans (congrArg _ hr), rfl⟩
  · rintro ⟨limit, _, hown, rfl⟩
    obtain ⟨r, hr, rfl⟩ := Option.map_eq_some_iff.1 ((halone limit).trans hown)
    exact ⟨limit, r, hr, rfl⟩

theorem EndsAlone.congr {accounts accounts' : Text → ν}
    (haccounts : ∀ u, s.embedder.prepareText text = .ok u → accounts u = accounts' u)
    (h : s.EndsAlone own accounts text v) : s.EndsAlone own accounts' text v := by
  obtain ⟨n, hn⟩ := exists_ends_waiting_iff.2 h
  exact exists_ends_waiting_iff.1 ⟨n, hn.congr haccounts⟩

/-- The requests for a text leave the accounts of other texts alone. -/
theorem account_of_retry (hservice : s.service.GoesByText s.embedder.model account own)
    {r : Retried σ κ Fault (List Double)} (h : s.retry limit text state = some r) {u : Text}
    (hu : s.embedder.prepareText text ≠ .ok u) : account r.state u = account state u :=
  Backoff.retryFrom_preserves (P := fun st => account st u = account state u)
    (fun now _ hst => (Embedder.account_embedText hservice now _ hu).trans hst) h rfl

theorem fillInTurn_mono {done : List Record × σ} (hlimit : limit ≤ limit')
    (h : s.fillInTurn limit rs state = some done) :
    s.fillInTurn limit' rs state = some done := by
  induction rs generalizing state done with
  | nil => exact h
  | cons r rest ih =>
    rw [fillInTurn] at h ⊢
    split at h
    · obtain ⟨done, hdone, rfl⟩ := Option.map_eq_some_iff.1 h
      rw [ih hdone]
      rfl
    · obtain ⟨retried, hretried, h⟩ := Option.bind_eq_some_iff.1 h
      obtain ⟨done, hdone, rfl⟩ := Option.map_eq_some_iff.1 h
      have hretried' : s.retry limit' _ state = some retried :=
        Backoff.retryFrom_mono hlimit hretried
      rw [hretried', Option.bind_some, ih hdone]
      rfl

/-- Records that are filled one after the other end as given ones. -/
def FillsInTurn (s : Setup σ κ) (rs : List Record) (state : σ) (filled : List Record) : Prop :=
  ∃ limit state', s.fillInTurn limit rs state = some (filled, state')

theorem FillsInTurn.unique {filled' : List Record} (h : s.FillsInTurn rs state filled)
    (h' : s.FillsInTurn rs state filled') : filled = filled' := by
  obtain ⟨limit, _, h⟩ := h
  obtain ⟨limit', _, h'⟩ := h'
  have hsame := (fillInTurn_mono (Nat.le_max_left limit limit') h).symm.trans
    (fillInTurn_mono (Nat.le_max_right limit limit') h')
  exact congrArg Prod.fst (Option.some.inj hsame)

theorem fillsInTurn_cons_of_none {r : Record} (hpending : r.pendingText? = none) :
    s.FillsInTurn (r :: rs) state filled ↔
      ∃ rest, s.FillsInTurn rs state rest ∧ filled = r :: rest := by
  constructor
  · rintro ⟨limit, st, h⟩
    simp only [fillInTurn, hpending] at h
    obtain ⟨done, hdone, heq⟩ := Option.map_eq_some_iff.1 h
    cases heq
    exact ⟨done.1, ⟨limit, done.2, hdone⟩, rfl⟩
  · rintro ⟨rest, ⟨limit, st, hrest⟩, rfl⟩
    exact ⟨limit, st, by simp [fillInTurn, hpending, hrest]⟩

theorem fillsInTurn_cons_of_some {r : Record} (hpending : r.pendingText? = some text) :
    s.FillsInTurn (r :: rs) state filled ↔
      ∃ limit retried rest, s.retry limit text state = some retried ∧
        s.FillsInTurn rs retried.state rest ∧
        filled = { r with embedding := retried.outcome.toOption } :: rest := by
  constructor
  · rintro ⟨limit, st, h⟩
    simp only [fillInTurn, hpending] at h
    obtain ⟨retried, hretried, h⟩ := Option.bind_eq_some_iff.1 h
    obtain ⟨done, hdone, heq⟩ := Option.map_eq_some_iff.1 h
    cases heq
    exact ⟨limit, retried, done.1, hretried, ⟨limit, done.2, hdone⟩, rfl⟩
  · rintro ⟨limit, retried, rest, hretried, ⟨limit', st, hrest⟩, rfl⟩
    -- Both the requests for the first text and those for the others end within the greater limit.
    have hretried : s.retry (max limit limit') text state = some retried :=
      Backoff.retryFrom_mono (Nat.le_max_left limit limit') hretried
    have hrest := fillInTurn_mono (Nat.le_max_right limit limit') hrest
    exact ⟨max limit limit', st, by simp [fillInTurn, hpending, hretried, hrest]⟩

/-- If the texts that are sent are distinct then the requests for the first leave the accounts of
the others alone. -/
theorem account_of_retry_requested (hservice : s.service.GoesByText s.embedder.model account own)
    {r : Record} (hpending : r.pendingText? = some text)
    (hdistinct : (s.embedder.requestedTexts (r :: rs)).Nodup)
    {retried : Retried σ κ Fault (List Double)} (h : s.retry limit text state = some retried) :
    ∀ u ∈ s.embedder.requestedTexts rs, account retried.state u = account state u := by
  intro u hu
  refine account_of_retry hservice h fun hsent => ?_
  rw [s.embedder.requestedTexts_cons_of_some hpending, hsent] at hdistinct
  exact List.disjoint_of_nodup_append hdistinct List.mem_cons_self hu

/-- Records that are filled one after the other get what their texts come to alone: the requests
for the records before leave the accounts of the texts of the later ones as they were. -/
theorem fillsInTurn_iff (hservice : s.service.GoesByText s.embedder.model account own)
    {accounts : Text → ν} (hdistinct : (s.embedder.requestedTexts rs).Nodup)
    (haccounts : ∀ u ∈ s.embedder.requestedTexts rs, account state u = accounts u) :
    s.FillsInTurn rs state filled ↔
      List.Forall₂ (Record.IsFilled (s.EndsAlone own accounts)) rs filled := by
  induction rs generalizing state filled with
  | nil =>
    rw [List.forall₂_nil_left_iff]
    exact ⟨fun ⟨_, _, h⟩ => by cases h; rfl, fun h => ⟨0, state, by rw [h]; rfl⟩⟩
  | cons r rest ih =>
    rw [List.forall₂_cons_left_iff]
    cases hpending : r.pendingText? with
    | none =>
      rw [s.embedder.requestedTexts_cons_of_none hpending] at hdistinct haccounts
      rw [fillsInTurn_cons_of_none hpending]
      simp only [ih hdistinct haccounts, Record.isFilled_iff_of_none hpending]
      constructor
      · rintro ⟨done, hdone, rfl⟩
        exact ⟨r, done, rfl, hdone, rfl⟩
      · rintro ⟨_, done, rfl, hdone, rfl⟩
        exact ⟨done, hdone, rfl⟩
    | some text =>
      have hsent := s.embedder.requestedTexts_cons_of_some hpending rest
      have hknown : ∀ u, s.embedder.prepareText text = .ok u → account state u = accounts u :=
        fun u hu => haccounts u (by simp [hsent, hu, Except.toOption])
      have hrest : ∀ {limit retried}, s.retry limit text state = some retried →
          ∀ u ∈ s.embedder.requestedTexts rest, account retried.state u = accounts u := by
        intro limit retried hretried u hu
        rw [account_of_retry_requested hservice hpending hdistinct hretried u hu]
        exact haccounts u (hsent ▸ List.mem_append_right _ hu)
      have hdistinct' : (s.embedder.requestedTexts rest).Nodup :=
        (hsent ▸ hdistinct).of_append_right
      rw [fillsInTurn_cons_of_some hpending]
      simp only [Record.isFilled_iff_of_some hpending]
      constructor
      · rintro ⟨limit, retried, done, hretried, hdone, rfl⟩
        have hends := (exists_retry_iff hservice).1 ⟨limit, retried, hretried, rfl⟩
        exact ⟨_, done, ⟨_, hends.congr hknown, rfl⟩,
          (ih hdistinct' (hrest hretried)).1 hdone, rfl⟩
      · rintro ⟨_, done, ⟨v, hends, rfl⟩, hdone, rfl⟩
        obtain ⟨limit, retried, hretried, rfl⟩ :=
          (exists_retry_iff hservice).2 (hends.congr fun u hu => (hknown u hu).symm)
        exact ⟨limit, retried, done, hretried, (ih hdistinct' (hrest hretried)).2 hdone, rfl⟩

/-! ## Runs of a batch -/

/-- The batch of the records that need a vector, before its first step. -/
def firstBatch (rs : List Record) (state : σ) : Batch σ κ := Batch.start (Record.jobs rs) state

omit [Span κ] in
theorem results_firstBatch (rs : List Record) (state : σ) :
    (firstBatch rs state : Batch σ κ).results = [] := by
  simp [firstBatch, Batch.start, Batch.results]

/-- However its jobs take their steps, a batch fills records as if they were taken one after the
other. -/
structure FillsApart (s : Setup σ κ) (own : Text → Endpoint ν κ) (accounts : Text → ν)
    (rs : List Record) (state : σ) : Prop where
  /-- A run can go on until all its jobs have ended. -/
  progress (order : List Nat) (b : Batch σ κ) (h : s.follow? order (firstBatch rs state) = some b) :
    b.IsComplete ∨ ∃ i b', s.step? b i = some b'
  /-- Once they have, each record has what its own text comes to. -/
  filled (order : List Nat) (b : Batch σ κ) (h : s.follow? order (firstBatch rs state) = some b)
    (hb : b.IsComplete) :
    List.Forall₂ (Record.IsFilled (s.EndsAlone own accounts)) rs (Record.fillAll rs b.results)
  /-- A vector is one that the service gave for what is sent for the text. -/
  given (text : Text) (vector : List Double) (h : s.EndsAlone own accounts text (some vector)) :
    ∃ known now item,
      ((own (s.embedder.sentText text)).send known now s.embedder.model
        [s.embedder.sentText text]).reply = .ok [item] ∧ item.vector = vector
  /-- The records are those that are left when they are filled one after the other. -/
  inTurn (order : List Nat) (b : Batch σ κ) (h : s.follow? order (firstBatch rs state) = some b)
    (hb : b.IsComplete) (filled : List Record) :
    s.FillsInTurn rs state filled ↔ filled = Record.fillAll rs b.results
  /-- All runs end if the records can be filled one after the other, and otherwise none does. -/
  ends : (∃ filled, s.FillsInTurn rs state filled) ↔
    ∃ total, ∀ order b, s.follow? order (firstBatch rs state) = some b → order.length ≤ total

/-- A run that has ended gives each record what its own text comes to. -/
theorem forall₂_isFilled (hservice : s.service.GoesByText s.embedder.model account own)
    (hdistinct : (s.embedder.requestedTexts rs).Nodup) {order : List Nat} {b : Batch σ κ}
    (h : s.follow? order (firstBatch rs state) = some b) (hb : b.IsComplete) :
    List.Forall₂ (Record.IsFilled (s.EndsAlone own (account state))) rs
      (Record.fillAll rs b.results) := by
  have hjobs : b.jobs.map Prod.fst = Record.jobs rs :=
    (map_fst_of_follow h).trans (Batch.map_fst_start _ _)
  have hended : ∀ j ∈ b.jobs, ∃ v, j.2 = .ended v ∧
      s.EndsAlone own (account state) j.1.text v := by
    rintro ⟨job, p⟩ hj
    obtain ⟨k, hk⟩ := List.mem_iff_getElem?.1 hj
    have hjob : (Record.jobs rs)[k]? = some job := by simp [← hjobs, hk]
    obtain ⟨v, hv, hends⟩ := exists_endsAlone_of_complete hservice
      (by rwa [Embedder.sentTexts_jobs]) h hb hjob
    cases hk.symm.trans hv
    exact ⟨v, rfl, hends⟩
  have hfrom : b.jobs.map Prod.fst = Record.jobsFrom ([] : List Record).length rs :=
    hjobs.trans (Record.jobs_eq_jobsFrom rs)
  obtain ⟨filled, hfilled, hall⟩ := Record.exists_fillAll_results hfrom hended
  have hsame : Record.fillAll rs b.results = filled := hfilled
  rwa [hsame]

/-- If no run has all its jobs ended then there are runs of any length. -/
theorem exists_follow_of_length {first : Batch σ κ}
    (hprogress : ∀ order b, s.follow? order first = some b → ∃ i b', s.step? b i = some b')
    (n : Nat) : ∃ order b, s.follow? order first = some b ∧ order.length = n := by
  induction n with
  | zero => exact ⟨[], first, rfl, rfl⟩
  | succ n ih =>
    obtain ⟨order, b, h, hlen⟩ := ih
    obtain ⟨i, b', hstep⟩ := hprogress order b h
    exact ⟨order ++ [i], b', follow_append h (follow?_singleton.trans hstep), by simp [hlen]⟩

theorem fillsApart (hpermits : 0 < s.permits)
    (hservice : s.service.GoesByText s.embedder.model account own)
    (hdistinct : (s.embedder.requestedTexts rs).Nodup) :
    s.FillsApart own (account state) rs state := by
  have hfills : ∀ filled, s.FillsInTurn rs state filled ↔
      List.Forall₂ (Record.IsFilled (s.EndsAlone own (account state))) rs filled :=
    fun _ => fillsInTurn_iff hservice hdistinct fun _ _ => rfl
  have hprogress : ∀ (order : List Nat) (b : Batch σ κ),
      s.follow? order (firstBatch rs state) = some b →
        b.IsComplete ∨ ∃ i b', s.step? b i = some b' := fun _ _ _ =>
    or_iff_not_imp_left.2 (exists_step hpermits)
  refine ⟨hprogress, fun order b => forall₂_isFilled hservice hdistinct,
    fun text vector => EndsAlone.exists_item, ?_, ?_, ?_⟩
  · intro order b h hb filled
    have hb := (hfills _).2 (forall₂_isFilled hservice hdistinct h hb)
    exact ⟨fun hfilled => hfilled.unique hb, fun hfilled => hfilled ▸ hb⟩
  · rintro ⟨filled, hfilled⟩
    refine exists_length_le hservice (by rwa [Embedder.sentTexts_jobs]) fun job hjob => ?_
    obtain ⟨r, hr, hpending⟩ := Record.exists_pending_of_mem_jobs hjob
    exact Record.exists_comesTo ((hfills filled).1 hfilled) hr hpending
  · rintro ⟨total, htotal⟩
    by_contra hnone
    have hcomplete : ∀ order b, s.follow? order (firstBatch rs state) = some b →
        ∃ i b', s.step? b i = some b' := by
      intro order b h
      refine (hprogress order b h).resolve_left fun hb => ?_
      exact hnone ⟨_, (hfills _).2 (forall₂_isFilled hservice hdistinct h hb)⟩
    obtain ⟨order, b, h, hlen⟩ := exists_follow_of_length hcomplete (total + 1)
    have := htotal order b h
    omega

end Setup

/-! ## Filling records in the surroundings -/

namespace FillOptions

/-- The embedder of the options, or else that of the settings. -/
def embedderFor (options : FillOptions) (settings : Value) : Work σ Embedder :=
  match options.embedder with
  | some e => pure e
  | none => Surroundings.setUpEmbedder settings {}

/-- The number of requests in flight of the options, or else that of the settings. -/
def permitsFor (options : FillOptions) (settings : Value) : Except DataFault Value :=
  match options.permits with
  | .null => (Settings.concurrency settings).map .int
  | v => .ok v

/-- The policy of the options, or else that of the settings. -/
def policyFor (options : FillOptions) (settings : Value) : Except DataFault (Backoff Double) :=
  match options.policy with
  | some p => .ok p
  | none => Backoff.ofSettings settings

/-- At most clients are set up for an embedder. -/
theorem embedderFor_cases (settings : Value) (options : FillOptions) (w : Surroundings σ) :
    ∃ embeddingClients,
      (∃ fault, options.embedderFor settings w = (.error fault, { w with embeddingClients })) ∨
      ∃ e, options.embedderFor settings w = (.ok e, { w with embeddingClients }) := by
  unfold embedderFor
  cases options.embedder with
  | some e => exact ⟨_, .inr ⟨e, rfl⟩⟩
  | none =>
    cases hmade : Embedder.ofSettings settings {} with
    | error fault => exact ⟨_, .inl ⟨fault, Surroundings.setUpEmbedder_of_error hmade⟩⟩
    | ok e => exact ⟨_, .inr ⟨e, Surroundings.setUpEmbedder_of_ok hmade⟩⟩

end FillOptions

/-- The embedder, the number of requests in flight and the policy that options stand for: the last
two come from the settings where they are not given. -/
structure FillOptions.Choose (options : FillOptions) (settings : Value) (e : Embedder) (n : Int)
    (policy : Backoff Double) : Prop where
  embedder : options.embedder = some e
  permits : options.permits = .int n ∨
    options.permits = .null ∧ Settings.concurrency settings = .ok n
  policy : options.policy = some policy ∨
    options.policy = none ∧ Backoff.ofSettings settings = .ok policy

theorem permitsOf_pos (n : Int) : 0 < permitsOf n := by
  simp only [permitsOf]
  omega

namespace Surroundings

variable {w : Surroundings σ} {settings : Value} {options : FillOptions} {e : Embedder} {n : Int}
  {policy : Backoff Double} {rs : List Record}

/-- What the jobs of a batch have in common in the surroundings. -/
def setup (w : Surroundings σ) (e : Embedder) (policy : Backoff Double) (n : Int) :
    Setup σ Double := ⟨w.service, e, policy, w.draw, permitsOf n⟩

theorem fillRecords_of_no_jobs (h : Record.jobs rs = []) :
    fillRecords settings options rs w = (.ok rs, w) := by
  simp [fillRecords, h, pure, Action.pure]

/-- Records that need vectors are filled by a batch, once it is known how. -/
theorem fillRecords_of_stages (settings : Value) (options : FillOptions) (w : Surroundings σ)
    (h : Record.jobs rs ≠ []) :
    fillRecords settings options rs w =
      (options.embedderFor settings >>= fun e =>
        Action.ofOutcome (.ofData (options.permitsFor settings)) >>= fun permits =>
        Action.ofOutcome (.ofData (options.policyFor settings)) >>= fun policy =>
        Action.ofOutcome (.ofData (permits.permits (Record.jobs rs).length)) >>= fun permits =>
        runBatch e policy permits (Record.jobs rs) >>= fun results =>
        pure (Record.fillAll rs results)) w := by
  have hempty : (Record.jobs rs).isEmpty = false := by simpa using h
  obtain ⟨embedder, permits, policy⟩ := options
  simp only [fillRecords, hempty, FillOptions.embedderFor, FillOptions.permitsFor,
    FillOptions.policyFor]
  cases embedder <;> cases permits <;> cases policy <;> rfl

theorem fillRecords_of_given {w' : Surroundings σ} {v : Value} {permits : Nat}
    (hembedder : options.embedderFor settings w = (.ok e, w'))
    (hpermits : options.permitsFor settings = .ok v)
    (hpolicy : options.policyFor settings = .ok policy)
    (hnumber : v.permits (Record.jobs rs).length = .ok permits) (h : Record.jobs rs ≠ []) :
    fillRecords settings options rs w =
      (runBatch e policy permits (Record.jobs rs) >>= fun results =>
        pure (Record.fillAll rs results)) w' := by
  rw [fillRecords_of_stages settings options w h, Action.bind_of_ok hembedder, hpermits, hpolicy]
  refine (Action.bind_of_ok rfl).trans ((Action.bind_of_ok rfl).trans ?_)
  rw [hnumber]
  rfl

/-- The records get the vectors of the batch that takes turns. -/
theorem fillRecords_of_jobs (hchoose : options.Choose settings e n policy)
    (h : Record.jobs rs ≠ []) :
    (fillRecords settings options rs w).1 = .ok (Record.fillAll rs
      ((w.setup e policy n).run (Record.jobs rs) w.serviceState).batch.results) := by
  have hembedder : options.embedderFor settings w = (.ok e, w) := by
    rw [FillOptions.embedderFor, hchoose.embedder]
    rfl
  have hpermits : options.permitsFor settings = .ok (.int n) := by
    rcases hchoose.permits with hpermits | ⟨hpermits, hsettings⟩
    · rw [FillOptions.permitsFor, hpermits]
    · rw [FillOptions.permitsFor, hpermits, hsettings]
      rfl
  have hpolicy : options.policyFor settings = .ok policy := by
    rcases hchoose.policy with hpolicy | ⟨hpolicy, hsettings⟩
    · rw [FillOptions.policyFor, hpolicy]
    · rw [FillOptions.policyFor, hpolicy, hsettings]
  rw [fillRecords_of_given hembedder hpermits hpolicy rfl h]
  rfl

/-- Filling records does not fail.  It is one of the runs that the permits allow, cut short only if
its steps do not fit into the turns that there are, and all these runs fill the records alike: as if
they were taken one after the other. -/
theorem fillRecords_fillsApart (w : Surroundings σ) (settings : Value) (options : FillOptions)
    (e : Embedder) (n : Int) (policy : Backoff Double) (rs : List Record)
    (account : σ → Text → ν) (own : Text → Endpoint ν Double)
    (hchoose : options.Choose settings e n policy)
    (hservice : w.service.GoesByText e.model account own)
    (hdistinct : (e.requestedTexts rs).Nodup) :
    (∃ order b,
      (w.setup e policy n).follow? order (Setup.firstBatch rs w.serviceState) = some b ∧
      (fillRecords settings options rs w).1 = .ok (Record.fillAll rs b.results) ∧
      (b.IsComplete ∨ Setup.turnLimit ≤ (Record.jobs rs).length + 4 * order.length)) ∧
    (w.setup e policy n).FillsApart own (account w.serviceState) rs w.serviceState := by
  refine ⟨?_, Setup.fillsApart (permitsOf_pos n) hservice hdistinct⟩
  by_cases hjobs : Record.jobs rs = []
  · have hfirst : (Setup.firstBatch rs w.serviceState : Batch σ Double).jobs = [] := by
      simp [Setup.firstBatch, Batch.start, hjobs]
    refine ⟨[], Setup.firstBatch rs w.serviceState, rfl, ?_, .inl ?_⟩
    · rw [fillRecords_of_no_jobs hjobs, Batch.results, hfirst]
      rfl
    · intro j hj
      rw [hfirst] at hj
      cases hj
  · obtain ⟨order, horder, hend⟩ := Setup.exists_follow_run (s := w.setup e policy n)
      (permitsOf_pos n) (Record.jobs rs) w.serviceState
    exact ⟨order, _, horder, fillRecords_of_jobs hchoose hjobs, hend⟩

/-! ### Two records and a service that is busy at first -/

/-- A service that limits the first request for every text, and then gives vectors by length. -/
def busyAtFirst : CountedAnswer Double := fun t count _ =>
  (Double.one, if count = 0 then .error (.rateLimited none) else .ok [⟨0, [Double.ofNat t.length]⟩])

def busySurroundings : Surroundings (Text → Nat) where
  files := ⟨.folder true [], []⟩
  environment := []
  parser := fun _ _ => .noTree
  service := busyAtFirst.endpoint
  serviceState := fun _ => 0
  server := {}
  draw := Double.zero

def smallEmbedder : Embedder where
  model := .text Settings.defaultModel
  dimension := 1
  maxTokens := 8191
  apiKey := .text "key"
  baseUrl := .null
  timeout := Double.ofNat 60

/-- A record for a line of a file. -/
def lineRecord (line : Int) (snippet : Text) : Record where
  name := .text "entry"
  signature := .text snippet
  kind := .text "Function"
  docstring := none
  line := line
  lineFrom := line
  lineTo := line
  context := ⟨.text "store.py", .text "store.py", .text snippet, none, none⟩
  embedding := none

/-- Two records that need a vector and one whose snippet is blank. -/
def threeRecords : List Record := [lineRecord 1 "f()", lineRecord 2 " ", lineRecord 3 "g()"]

/-- One request at a time, by the standard policy. -/
def oneAtATime : FillOptions where
  embedder := some smallEmbedder
  permits := .int 1
  policy := some Backoff.standard

theorem fillRecords_fillsApart_threeRecords :
    oneAtATime.Choose (.object []) smallEmbedder 1 Backoff.standard ∧
    busySurroundings.service.GoesByText smallEmbedder.model (fun counts t => counts t)
      busyAtFirst.endpointFor ∧
    (smallEmbedder.requestedTexts threeRecords).Nodup ∧
    (∃ order b,
      (busySurroundings.setup smallEmbedder Backoff.standard 1).follow? order
        (Setup.firstBatch threeRecords busySurroundings.serviceState) = some b ∧
      (fillRecords (.object []) oneAtATime threeRecords busySurroundings).1 =
        .ok (Record.fillAll threeRecords b.results) ∧
      (b.IsComplete ∨
        Setup.turnLimit ≤ (Record.jobs threeRecords).length + 4 * order.length)) ∧
    (busySurroundings.setup smallEmbedder Backoff.standard 1).FillsApart busyAtFirst.endpointFor
      busySurroundings.serviceState threeRecords busySurroundings.serviceState := by
  have hchoose : oneAtATime.Choose (.object []) smallEmbedder 1 Backoff.standard :=
    ⟨rfl, .inl rfl, .inl rfl⟩
  have hservice := busyAtFirst.goesByText smallEmbedder.model
  have hrequested : smallEmbedder.requestedTexts threeRecords = ["f()", "g()"] := by rfl
  have hdistinct : (smallEmbedder.requestedTexts threeRecords).Nodup := by
    rw [hrequested]
    decide
  exact ⟨hchoose, hservice, hdistinct, fillRecords_fillsApart busySurroundings (.object [])
    oneAtATime smallEmbedder 1 Backoff.standard threeRecords _ _ hchoose hservice hdistinct⟩

end Surroundings

end CodeCatalog
