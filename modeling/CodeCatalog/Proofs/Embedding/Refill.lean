import CodeCatalog.Proofs.Embedding.Permits
set_option autoImplicit false

/-!
# Filling records again

A first run may end with some records filled and others not, as the service behaves.  A second run
over what the first has left, with whatever service, keeps the vectors that are there and asks only
for the records that the first left without one.  If there are none it asks nothing, and needs
neither an embedder nor settings that can be read.
-/

namespace CodeCatalog

variable {σ τ κ : Type}

/-! ## Runs over records -/

/-- What jobs for records can have done by some moment, whoever embeds and by whatever policy: what
was seen of them, the records as they are filled then, and the state of the service. -/
inductive Endpoint.Fills [Span κ] (service : Endpoint σ κ) (rs : List Record) (state : σ) :
    List JobEvent → List Record → σ → Prop
  | run {s : Setup σ κ} {order : List Nat} {b : Batch σ κ} (hservice : s.service = service)
    (h : s.follow? order (Setup.firstBatch rs state) = some b) :
    service.Fills rs state (s.events order (Setup.firstBatch rs state))
      (Record.fillAll rs b.results) b.state

namespace Endpoint.Fills

variable [Span κ] {service : Endpoint σ κ} {rs filled : List Record} {state state' : σ}
  {seen : List JobEvent}

theorem mayBeFilled (h : service.Fills rs state seen filled state') :
    List.Forall₂ Record.MayBeFilled rs filled := by
  cases h with
  | run _ h => exact Record.forall₂_mayBeFilled (Setup.map_fst_of_follow_firstBatch h)

theorem isPending (h : service.Fills rs state seen filled state') {i : Nat} {text : Text}
    (hsends : .sends i text ∈ seen) : ∃ r, rs[i]? = some r ∧ r.isPending = true := by
  cases h with
  | run _ h =>
    obtain ⟨r, t, hr, hpending, -⟩ := Setup.exists_pending_of_sends h hsends
    exact ⟨r, hr, Record.isPending_iff.2 ⟨t, hpending⟩⟩

end Endpoint.Fills

namespace Record

variable {r r' : Record} {rs filled : List Record}

/-- A record with a vector stays as it is. -/
theorem MayBeFilled.eq_of_isSome (h : MayBeFilled r r') (hr : r.embedding.isSome = true) :
    r' = r := by
  cases h with
  | kept _ => rfl
  | embedded hpending _ => simp [embedding_of_pendingText hpending] at hr

/-- A record that needs a vector afterwards is as it was. -/
theorem MayBeFilled.eq_of_isPending (h : MayBeFilled r r') (hr' : r'.isPending = true) :
    r' = r := by
  cases h with
  | kept _ => rfl
  | @embedded text v hpending _ =>
    obtain ⟨text', hpending'⟩ := isPending_iff.1 hr'
    have hnone : v = none := embedding_of_pendingText hpending'
    rw [hnone, ← embedding_of_pendingText hpending]

theorem getElem?_of_isPending (h : List.Forall₂ MayBeFilled rs filled) {i : Nat}
    (hr : filled[i]? = some r) (hpending : r.isPending = true) : rs[i]? = some r := by
  obtain ⟨hlt, hget⟩ := List.getElem?_eq_some_iff.1 hr
  have hlt' : i < rs.length := h.length_eq ▸ hlt
  have hfilled : MayBeFilled rs[i] filled[i] := h.get hlt' hlt
  rw [hget] at hfilled
  rw [List.getElem?_eq_getElem hlt', ← hfilled.eq_of_isPending hpending]

theorem jobs_eq_nil (h : ∀ r ∈ rs, r.embeddable?.isSome = true → r.embedding.isSome = true) :
    jobs rs = [] := by
  refine List.eq_nil_iff_forall_not_mem.2 fun job hjob => ?_
  obtain ⟨r, hr, hpending⟩ := exists_pending_of_mem_jobs hjob
  have hnone := embedding_of_pendingText hpending
  have hembeddable : r.embeddable? = some job.text := by
    simpa [pendingText?, hnone] using hpending
  have hsome := h r hr (by rw [hembeddable]; rfl)
  simp [hnone] at hsome

end Record

/-! ## Second runs -/

/-- A run over records that an earlier one has filled keeps the vectors that are there, and sends
texts only for records that need a vector and that the earlier run left as they were. -/
structure Record.Refills (rs filled : List Record) (seen : List JobEvent) (again : List Record) :
    Prop where
  kept : List.Forall₂ (fun r r' => r.embedding.isSome = true → r' = r) filled again
  asked (i : Nat) (text : Text) (h : .sends i text ∈ seen) :
    ∃ r, rs[i]? = some r ∧ filled[i]? = some r ∧ r.isPending = true

theorem Endpoint.Fills.refills [Span κ] {service : Endpoint σ κ} {rs filled again : List Record}
    {state state' : σ} {seen : List JobEvent} (hfirst : List.Forall₂ Record.MayBeFilled rs filled)
    (h : service.Fills filled state seen again state') : Record.Refills rs filled seen again where
  kept := h.mayBeFilled.imp fun _ _ hr => hr.eq_of_isSome
  asked i text hsends := by
    obtain ⟨r, hr, hpending⟩ := h.isPending hsends
    exact ⟨r, Record.getElem?_of_isPending hfirst hr hpending, hr, hpending⟩

namespace Surroundings

variable {settings : Value} {options : FillOptions} {rs filled : List Record}

/-- Records that need vectors are filled by a batch, unless what the options and settings give
cannot be used: then clients may have been set up, but nothing has been asked. -/
theorem fillRecords_fault_or_batch (settings : Value) (options : FillOptions)
    (w : Surroundings σ) (hjobs : Record.jobs rs ≠ []) :
    ∃ embeddingClients,
      (∃ fault,
        fillRecords settings options rs w = (.error fault, { w with embeddingClients })) ∨
      ∃ e policy permits,
        fillRecords settings options rs w =
          (runBatch e policy permits (Record.jobs rs) >>= fun results =>
            pure (Record.fillAll rs results)) { w with embeddingClients } := by
  obtain ⟨embeddingClients, ⟨fault, hfault⟩ | ⟨e, he⟩⟩ :=
    FillOptions.embedderFor_cases settings options w
  · refine ⟨embeddingClients, .inl ⟨fault, ?_⟩⟩
    rw [fillRecords_of_stages settings options w hjobs, Action.bind_of_error hfault]
  refine ⟨embeddingClients, ?_⟩
  cases hpermits : options.permitsFor settings with
  | error fault =>
    refine .inl ⟨.data fault, ?_⟩
    rw [fillRecords_of_stages settings options w hjobs, Action.bind_of_ok he, hpermits]
    rfl
  | ok v =>
    cases hpolicy : options.policyFor settings with
    | error fault =>
      refine .inl ⟨.data fault, ?_⟩
      rw [fillRecords_of_stages settings options w hjobs, Action.bind_of_ok he, hpermits, hpolicy]
      rfl
    | ok policy =>
      cases hnumber : v.permits (Record.jobs rs).length with
      | error fault =>
        refine .inl ⟨.data fault, ?_⟩
        rw [fillRecords_of_stages settings options w hjobs, Action.bind_of_ok he, hpermits, hpolicy]
        refine (Action.bind_of_ok rfl).trans ((Action.bind_of_ok rfl).trans ?_)
        rw [hnumber]
        rfl
      | ok permits =>
        exact .inr ⟨e, policy, permits, fillRecords_of_given he hpermits hpolicy hnumber hjobs⟩

/-- What filling records does is what their jobs can do. -/
theorem fills_of_fillRecords {w w' : Surroundings σ}
    (h : fillRecords settings options rs w = (.ok filled, w')) :
    ∃ seen, w.service.Fills rs w.serviceState seen filled w'.serviceState := by
  by_cases hjobs : Record.jobs rs = []
  · rw [fillRecords_of_no_jobs hjobs] at h
    cases h
    -- No job asks for anything, so any embedder will do.
    let s : Setup σ Double := ⟨w.service, smallEmbedder, Backoff.standard, w.draw, 1⟩
    have hnone : s.follow? [] (Setup.firstBatch rs w.serviceState) = some _ := rfl
    have hfills := Endpoint.Fills.run (s := s) rfl hnone
    rw [Setup.results_firstBatch] at hfills
    exact ⟨[], hfills⟩
  · obtain ⟨embeddingClients, ⟨fault, hfault⟩ | ⟨e, policy, permits, hbatch⟩⟩ :=
      fillRecords_fault_or_batch settings options w hjobs
    · rw [hfault] at h
      cases h
    · rw [hbatch] at h
      cases h
      let s : Setup σ Double := ⟨w.service, e, policy, w.draw, permits⟩
      obtain ⟨order, horder⟩ :=
        Setup.exists_follow_batchAfter s rs w.serviceState Setup.turnLimit
      exact ⟨_, .run (s := s) rfl horder⟩

/-- Nothing has been asked when filling records fails. -/
theorem serviceState_of_fillRecords_error {w w' : Surroundings σ} {fault : Fault}
    (h : fillRecords settings options rs w = (.error fault, w')) :
    w'.serviceState = w.serviceState := by
  by_cases hjobs : Record.jobs rs = []
  · rw [fillRecords_of_no_jobs hjobs] at h
    cases h
  · obtain ⟨embeddingClients, ⟨fault, hfault⟩ | ⟨e, policy, permits, hbatch⟩⟩ :=
      fillRecords_fault_or_batch settings options w hjobs
    · rw [hfault] at h
      cases h
      rfl
    · rw [hbatch] at h
      cases h

/-- A second run over what a first run has left keeps the vectors that are there, and sends texts
only for records that the first run left without one.  If every record with an embeddable snippet
has one then, it asks for nothing, whatever the options and settings are, and gives the records as
they are. -/
theorem fillRecords_again (w : Surroundings σ) (w' : Surroundings τ) (rs filled : List Record)
    (seen : List JobEvent) (state : σ)
    (hfirst : w.service.Fills rs w.serviceState seen filled state) :
    (∀ seen' again state', w'.service.Fills filled w'.serviceState seen' again state' →
      Record.Refills rs filled seen' again) ∧
    ∀ settings options,
      (∀ again w'', fillRecords settings options filled w' = (.ok again, w'') →
        ∃ seen', w'.service.Fills filled w'.serviceState seen' again w''.serviceState) ∧
      (∀ fault w'', fillRecords settings options filled w' = (.error fault, w'') →
        w''.serviceState = w'.serviceState) ∧
      ((∀ r ∈ filled, r.embeddable?.isSome = true → r.embedding.isSome = true) →
        fillRecords settings options filled w' = (.ok filled, w')) := by
  refine ⟨fun seen' again state' hagain => hagain.refills hfirst.mayBeFilled, ?_⟩
  intro settings options
  refine ⟨fun again w'' => fills_of_fillRecords, fun fault w'' => serviceState_of_fillRecords_error,
    fun hfilled => ?_⟩
  exact fillRecords_of_no_jobs (Record.jobs_eq_nil hfilled)

/-! ### A service that refuses a text -/

/-- A service that gives vectors by length, but for one text that it cannot take. -/
def fussy : Endpoint Unit Double where
  send _ _ _ texts :=
    ⟨(), Double.one,
      if texts = ["g()"] then .error .badInput
      else .ok [⟨0, [Double.ofNat (texts.headD []).length]⟩]⟩

def fussySurroundings : Surroundings Unit where
  files := ⟨.folder true [], []⟩
  environment := []
  parser := fun _ _ => .noTree
  service := fussy
  serviceState := ()
  server := {}
  draw := Double.zero

/-- The records of which the first has a vector and the last has not. -/
def halfFilled : List Record :=
  [{ lineRecord 1 "f()" with embedding := some [Double.ofNat 3] }, lineRecord 2 " ",
    lineRecord 3 "g()"]

theorem embedText_fussy (now : Double) (state : Unit) :
    smallEmbedder.embedText fussy "f()" now state =
      ⟨(), Double.one, .ok [Double.ofNat 3]⟩ := by
  have hprepare : smallEmbedder.prepareText "f()" = .ok "f()" := rfl
  have hreply : (fussy.send state now smallEmbedder.model ["f()"]).reply =
      .ok [⟨0, [Double.ofNat 3]⟩] := rfl
  rw [Embedder.embedText_of_ok hprepare, hreply]
  simp [Embedder.vectorOf, Embedder.vectors, Except.map, fussy]

/-- The jobs for the first record and the last begin together, and the last is refused. -/
theorem fills_halfFilled : ∃ seen, fussy.Fills threeRecords () seen halfFilled () := by
  let s : Setup Unit Double := ⟨fussy, smallEmbedder, Backoff.standard, Double.zero, 2⟩
  let refused : Batch Unit Double :=
    ⟨[(⟨0, "f()"⟩, .active 1 Span.zero), (⟨2, "g()"⟩, .ended none)], ()⟩
  let done : Batch Unit Double :=
    ⟨[(⟨0, "f()"⟩, .ended (some [Double.ofNat 3])), (⟨2, "g()"⟩, .ended none)], ()⟩
  have hrefused : s.follow? [0, 1, 1] (Setup.firstBatch threeRecords ()) = some refused := rfl
  have hdone : s.step? refused 0 = some done := by
    change some (refused.advance 0 ⟨0, "f()"⟩ _ _) = _
    simp only [s, embedText_fussy]
    rfl
  have hrun := Setup.follow_append hrefused (Setup.follow?_singleton.trans hdone)
  exact ⟨_, Endpoint.Fills.run rfl hrun⟩

theorem fillRecords_again_halfFilled :
    ∃ seen, fussy.Fills threeRecords () seen halfFilled () ∧
      (∀ seen' again state', busySurroundings.service.Fills halfFilled
        busySurroundings.serviceState seen' again state' →
          Record.Refills threeRecords halfFilled seen' again) ∧
      ∀ settings options,
        (∀ again w'', fillRecords settings options halfFilled busySurroundings = (.ok again, w'') →
          ∃ seen', busySurroundings.service.Fills halfFilled busySurroundings.serviceState seen'
            again w''.serviceState) ∧
        (∀ fault w'',
          fillRecords settings options halfFilled busySurroundings = (.error fault, w'') →
            w''.serviceState = busySurroundings.serviceState) ∧
        ((∀ r ∈ halfFilled, r.embeddable?.isSome = true → r.embedding.isSome = true) →
          fillRecords settings options halfFilled busySurroundings =
            (.ok halfFilled, busySurroundings)) := by
  obtain ⟨seen, hfirst⟩ := fills_halfFilled
  exact ⟨seen, hfirst, fillRecords_again fussySurroundings busySurroundings threeRecords
    halfFilled seen () hfirst⟩

end Surroundings

end CodeCatalog
