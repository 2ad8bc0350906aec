import CodeCatalog.Proofs.Entity.Payload
import CodeCatalog.Proofs.Lists
import CodeCatalog.Proofs.Store.Batches
import CodeCatalog.Proofs.Store.Server
set_option autoImplicit false

/-!
# What a call of a store does

A store goes on from one call of the server to the next as long as they succeed, and reports the
first fault.  The points of an upsert are cut into batches that are sent in order; the fault of a
batch names it by its number, so the result of an upsert tells which batches were stored: all of
them if it succeeded, and those before the one named by the fault if it did not.
-/

namespace CodeCatalog

/-! ## Actions one after another -/

namespace Action

variable {σ α β : Type} {x : Action σ α} {next : α → Action σ β} {s s' : σ}

theorem bind_of_ok {a : α} (h : x s = (.ok a, s')) : (x >>= next) s = next a s' := by
  change Action.bind x next s = next a s'
  rw [Action.bind, h]

theorem bind_of_error {e : Fault} (h : x s = (.error e, s')) :
    (x >>= next) s = (.error e, s') := by
  change Action.bind x next s = (.error e, s')
  rw [Action.bind, h]

/-- Steps that succeed do so one after the other. -/
theorem bind_eq_ok {b : β} {s'' : σ} :
    (x >>= next) s = (.ok b, s'') ↔ ∃ a s', x s = (.ok a, s') ∧ next a s' = (.ok b, s'') := by
  change Action.bind x next s = _ ↔ _
  unfold Action.bind
  rcases hx : x s with ⟨r, s'⟩
  cases r with
  | error e => simp
  | ok a => simp

/-- Steps fail at the first one, or behind it. -/
theorem bind_eq_error {e : Fault} {s'' : σ} :
    (x >>= next) s = (.error e, s'') ↔
      x s = (.error e, s'') ∨ ∃ a s', x s = (.ok a, s') ∧ next a s' = (.error e, s'') := by
  change Action.bind x next s = _ ↔ _
  unfold Action.bind
  rcases hx : x s with ⟨r, s'⟩
  cases r with
  | error e => simp
  | ok a => simp

/-- What becomes of a result changes nothing else. -/
theorem map_apply (f : α → β) (x : Action σ α) (s : σ) :
    (f <$> x) s = ((x s).1.map f, (x s).2) := by
  change Action.bind x (fun a => Action.pure (f a)) s = _
  unfold Action.bind
  rcases x s with ⟨e | a, s'⟩ <;> rfl

end Action

namespace VectorStore

variable {α : Type} {st : VectorStore} {s s' : VectorServer} {name : Value}

/-! ## Calls and their reports -/

theorem call_of_ok {report : ServerFault → Fault}
    {f : VectorServer → Except ServerFault α × VectorServer} {a : α} (h : f s = (.ok a, s')) :
    call report f s = (.ok a, s') := by
  rw [call, h]
  rfl

theorem call_of_error {report : ServerFault → Fault}
    {f : VectorServer → Except ServerFault α × VectorServer} {e : ServerFault}
    (h : f s = (.error e, s')) : call report f s = (.error (report e), s') := by
  rw [call, h]
  rfl

/-- A call either gives what the server gives, or a report on the server's fault. -/
theorem call_cases (report : ServerFault → Fault)
    (f : VectorServer → Except ServerFault α × VectorServer) (s : VectorServer) :
    (∃ a, (f s).1 = .ok a ∧ call report f s = (.ok a, (f s).2)) ∨
      ∃ e, (f s).1 = .error e ∧ call report f s = (.error (report e), (f s).2) := by
  cases hf : (f s).1 with
  | ok a => exact .inl ⟨a, rfl, call_of_ok (Prod.ext hf rfl)⟩
  | error e => exact .inr ⟨e, rfl, call_of_error (Prod.ext hf rfl)⟩

theorem call_eq_ok {report : ServerFault → Fault}
    {f : VectorServer → Except ServerFault α × VectorServer} {a : α} :
    call report f s = (.ok a, s') ↔ f s = (.ok a, s') := by
  refine ⟨fun h => ?_, call_of_ok⟩
  obtain ⟨b, hok, hcall⟩ | ⟨e, -, hcall⟩ := call_cases report f s
  · rw [hcall] at h
    cases h
    exact Prod.ext hok rfl
  · rw [hcall] at h
    cases h

/-- The fault of a call is a report on one of the server's. -/
theorem exists_cause_of_call {report : ServerFault → Fault}
    {f : VectorServer → Except ServerFault α × VectorServer} {e : Fault}
    (h : call report f s = (.error e, s')) : ∃ cause, e = report cause := by
  obtain ⟨a, -, hcall⟩ | ⟨cause, -, hcall⟩ := call_cases report f s
  · rw [hcall] at h
    cases h
  · rw [hcall] at h
    cases h
    exact ⟨cause, rfl⟩

/-! ## Making a collection -/

open VectorServer in
/-- A collection is made, or nothing is. -/
theorem create_cases (st : VectorStore) (name : Value) (s : VectorServer) :
    ((st.create name s).1 ≠ .ok true ∧ Alike s (st.create name s).2) ∨
      ((st.create name s).1 = .ok true ∧ Made name st.vectorSize s (st.create name s).2) := by
  have halike := hasCollection_alike name s
  unfold create
  obtain ⟨found, -, hfound⟩ | ⟨e, -, hfails⟩ :=
    call_cases (.createFailed name.shown) (hasCollection name) s
  · rw [Action.bind_of_ok hfound]
    cases found with
    | true => exact .inl ⟨nofun, halike⟩
    | false =>
      rw [if_neg Bool.false_ne_true]
      obtain ⟨e, s', hfails, halike'⟩ | ⟨s', hmakes, hmade⟩ :=
        VectorServer.create_cases name st.vectorSize (hasCollection name s).2
      · rw [Action.bind_of_error (call_of_error hfails)]
        exact .inl ⟨nofun, halike.trans halike'⟩
      · rw [Action.bind_of_ok (call_of_ok hmakes)]
        exact .inr ⟨rfl, halike.made hmade⟩
  · rw [Action.bind_of_error hfails]
    exact .inl ⟨nofun, halike⟩

/-! ## Points of records -/

/-- The point of a record has a vector of the store's size, and holds the record. -/
theorem of_point?_eq_some {r : Record} {p : Point} (h : st.point? r = some p) :
    (p.vector.length : Int) = st.vectorSize ∧ p.payload = r.payload := by
  unfold point? at h
  split at h
  · cases h
  · split at h
    · split at h
      · cases h
        exact ⟨‹_›, rfl⟩
      · cases h
    · cases h

/-- What a search reads from the payload of a record is that record. -/
theorem recordOf_of_payload {r : Record} {p : Point} (h : p.payload = r.payload) :
    recordOf name p = .ok r.readBack := by
  rw [recordOf, payloadOf, h, if_pos r.isPresent_payload, Record.ofValue_payload]
  rfl

/-! ## Batches -/

/-- The batches of the records that can be stored. -/
def batchesOf (st : VectorStore) (rs : List Record) : List (List Point) :=
  batches st.batchSize st.batchSize_pos (rs.filterMap st.point?)

/-- The points of batches are those of records. -/
theorem exists_point?_of_mem_batchesOf {rs : List Record} {p : Point}
    (h : p ∈ (st.batchesOf rs).flatten) : ∃ r ∈ rs, st.point? r = some p := by
  rw [batchesOf, flatten_batches] at h
  exact List.mem_filterMap.1 h

/-! ## Sending batches -/

open VectorServer in
/-- Either all batches are sent, or the first ones are and the fault names the next one. -/
theorem sendBatches_cases (name : Value) (total : Nat) (bs : List (List Point)) :
    ∀ (sent stored : Nat) (s : VectorServer),
      (∃ s', sendBatches name total sent stored bs s = (.ok (), s') ∧ Put name bs s s') ∨
      ∃ taken first last cause s',
        sendBatches name total sent stored bs s =
            (.error (.upsertFailed (sent + taken + 1) total first last cause), s') ∧
          Put name (bs.take taken) s s' := by
  -- The batches behind the first one are sent with other numbers and from another server.
  induction bs with
  | nil => exact fun sent stored s => .inl ⟨s, rfl, (Alike.refl s).put name⟩
  | cons batch rest ih =>
    intro sent stored s
    rw [sendBatches]
    obtain ⟨f, s', hfails, halike⟩ | ⟨s', hok, hput⟩ := upsert_cases name batch s
    · refine .inr ⟨0, stored, stored + batch.length, f, s', ?_, halike.put name⟩
      exact Action.bind_of_error (call_of_error hfails)
    · rw [Action.bind_of_ok (call_of_ok hok)]
      obtain ⟨s'', hsent, hputs⟩ | ⟨taken, first, last, cause, s'', hfails, hputs⟩ :=
        ih (sent + 1) (stored + batch.length) s'
      · exact .inl ⟨s'', hsent, hput.trans hputs⟩
      · refine .inr ⟨taken + 1, first, last, cause, s'', ?_, hput.trans hputs⟩
        rw [hfails, Nat.add_right_comm sent 1 taken, Nat.add_assoc sent taken 1]

/-- The batches that an upsert stored, as its result tells. -/
def storedBatches (st : VectorStore) (rs : List Record) : Outcome Nat → List (List Point)
  | .ok _ => st.batchesOf rs
  | .error (.upsertFailed batch _ _ _ _) => (st.batchesOf rs).take (batch - 1)
  | .error _ => []

theorem storedBatches_sublist (st : VectorStore) (rs : List Record) (outcome : Outcome Nat) :
    (st.storedBatches rs outcome).Sublist (st.batchesOf rs) := by
  unfold storedBatches
  split
  · exact List.Sublist.refl _
  · exact List.take_sublist _ _
  · exact List.nil_sublist _

/-- The server holds the batches that the result of an upsert tells of, and no others. -/
theorem upsert_puts (st : VectorStore) (name : Value) (rs : List Record) (s : VectorServer) :
    VectorServer.Put name (st.storedBatches rs (st.upsert name rs s).1) s
      (st.upsert name rs s).2 := by
  have hcases := sendBatches_cases name (st.batchesOf rs).length (st.batchesOf rs) 0 0 s
  obtain ⟨s', hsent, hput⟩ | ⟨taken, first, last, cause, s', hfails, hput⟩ := hcases
  · have hupsert : st.upsert name rs s = (.ok _, s') := Action.bind_of_ok hsent
    rw [hupsert]
    exact hput
  · have hupsert : st.upsert name rs s = (.error _, s') := Action.bind_of_error hfails
    rw [hupsert, Nat.zero_add]
    exact hput

/-! ## Searching -/

theorem searchRanked_alike {S : Type} (ranked : List Point → List (S × Point))
    (name topK : Value) (s : VectorServer) :
    VectorServer.Alike s (searchRanked ranked name topK s).2 := by
  have halike := VectorServer.query_alike ranked name topK s
  unfold searchRanked
  obtain ⟨hits, -, hfound⟩ | ⟨cause, -, hfails⟩ :=
    call_cases (.queryFailed name.shown) (VectorServer.query ranked name topK) s
  · rw [Action.bind_of_ok hfound]
    exact halike
  · rw [Action.bind_of_error hfails]
    exact halike

/-- Where all points that are ranked can be read, a search fails only as the server does. -/
theorem exists_cause_of_searchRanked {S : Type} {ranked : List Point → List (S × Point)}
    {topK : Value} {fault : Fault}
    (hread : ∀ c ∈ s.collections, ∀ hit ∈ ranked c.points, ∃ r, recordOf name hit.2 = .ok r)
    (h : (searchRanked ranked name topK s).1 = .error fault) :
    ∃ cause, fault = .queryFailed name.shown cause := by
  unfold searchRanked at h
  obtain ⟨hits, hhits, hfound⟩ | ⟨cause, -, hfails⟩ :=
    call_cases (.queryFailed name.shown) (VectorServer.query ranked name topK) s
  · obtain ⟨c, hmem, -, hfirst⟩ := VectorServer.exists_mem_of_query hhits
    have hall : ∀ hit ∈ hits, ∃ b,
        ((recordOf name hit.2).map fun r => (hit.1, r) : Outcome (S × Record)) = .ok b := by
      intro hit hhit
      obtain ⟨r, hr⟩ := hread c hmem hit (VectorServer.subset_of_firstOf hfirst hhit)
      rw [hr]
      exact ⟨_, rfl⟩
    obtain ⟨records, hrecords⟩ := exists_mapM_eq_ok hall
    rw [Action.bind_of_ok hfound, hrecords] at h
    cases h
  · rw [Action.bind_of_error hfails] at h
    exact ⟨cause, (Except.error.inj h).symm⟩

end VectorStore

end CodeCatalog
