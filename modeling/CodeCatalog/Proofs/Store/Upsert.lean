import CodeCatalog.Proofs.Store.Ledger
set_option autoImplicit false

/-!
# What an upsert sends and stores

The server refuses a call if the call is one of those that are to fail, or if there is no collection
of the name; storing points changes neither.  So it can be told beforehand which call that stores
points is the first to fail.  The batches of an upsert are sent up to that call, those before it are
stored, and the fault names its batch.
-/

namespace CodeCatalog

/-! ## Calls that the server refuses -/

namespace VectorServer

variable {s s' s'' : VectorServer} {name : Value}

/-- The number of calls of a method so far. -/
def made (s : VectorServer) (method : String) : Nat := (s.calls.lookup method).getD 0

/-- Whether a call of a method is to fail; calls count from one. -/
def isToFail (s : VectorServer) (method : String) (call : Nat) : Bool :=
  ((s.failing.lookup method).getD []).contains call

theorem enter_fst (s : VectorServer) (method : String) :
    (s.enter method).1 =
      if s.isToFail method (s.made method + 1) then .error (.injected method) else .ok () := by
  unfold enter isToFail made
  dsimp only
  split <;> rfl

theorem made_enter (s : VectorServer) (method : String) :
    (s.enter method).2.made method = s.made method + 1 := by
  have hcalls : (s.enter method).2.calls = (method, s.made method + 1) ::
      s.calls.filter fun c => c.1 != method := by
    unfold enter made
    dsimp only
    split <;> rfl
  rw [made, hcalls, List.lookup_cons_self, Option.getD_some]

/-- The fault of the call that stores points in the collection of a name, if it fails and `n` such
calls come before it. -/
def refusal? (s : VectorServer) (name : Value) (n : Nat) : Option ServerFault :=
  if s.isToFail "upsert" (s.made "upsert" + n + 1) then some (.injected "upsert")
  else
    match s.existing name with
    | .ok _ => none
    | .error f => some f

/-- A value names a collection after points were put into it if it did before. -/
theorem Put.existing {bs : List (List Point)} (h : Put name bs s s') :
    s'.existing name = (s.existing name).map (Collection.putting name bs.flatten) := by
  unfold VectorServer.existing VectorServer.lookup
  cases keyOf name with
  | error f => rfl
  | ok key =>
    have hfound := h.collection? key
    cases hc : s.collection? key with
    | none =>
      rw [hc] at hfound
      simp only [Except.map, bind, Except.bind, hfound, hc]
      rfl
    | some c =>
      rw [hc] at hfound
      simp only [Except.map, bind, Except.bind, hfound, hc]
      rfl

/-- A number of calls that store points was made, and batches were stored by them. -/
structure Took (name : Value) (stored : List (List Point)) (calls : Nat) (s s' : VectorServer) :
    Prop where
  put : Put name stored s s'
  made : s'.made "upsert" = s.made "upsert" + calls

theorem Took.trans {as bs : List (List Point)} {m n : Nat} (h : Took name as m s s')
    (h' : Took name bs n s' s'') : Took name (as ++ bs) (m + n) s s'' where
  put := h.put.trans h'.put
  made := by rw [h'.made, h.made, Nat.add_assoc]

/-- What the server refuses after some calls were made is what it refused after them before. -/
theorem Took.refusal? {stored : List (List Point)} {calls : Nat} (h : Took name stored calls s s')
    (n : Nat) : s'.refusal? name n = s.refusal? name (calls + n) := by
  have hcall : s'.made "upsert" + n + 1 = s.made "upsert" + (calls + n) + 1 := by
    rw [h.made, Nat.add_assoc (s.made "upsert")]
  unfold VectorServer.refusal? isToFail
  rw [hcall, h.put.failing, h.put.existing]
  cases s.existing name <;> rfl

/-- Behind a call, the server refuses none of the calls that it refused none of before. -/
theorem Took.accepts {stored : List (List Point)} {k : Nat} (h : Took name stored 1 s s')
    (haccepted : ∀ n < k + 1, s.refusal? name n = none) : ∀ n < k, s'.refusal? name n = none := by
  intro n hn
  rw [h.refusal?, Nat.add_comm]
  exact haccepted (n + 1) (Nat.succ_lt_succ hn)

/-! ## Storing a batch -/

theorem upsert_fst (name : Value) (batch : List Point) (s : VectorServer) :
    (upsert name batch s).1 =
      match s.refusal? name 0 with
      | some f => .error f
      | none => .ok () := by
  have hcall := enter_fst s "upsert"
  obtain ⟨s', halike, hfails | hok⟩ := s.enter_cases "upsert"
  · have htoFail : s.isToFail "upsert" (s.made "upsert" + 0 + 1) = true := by
      by_contra hnot
      rw [hfails, if_neg hnot] at hcall
      cases hcall
    rw [upsert_eq_counting, counting, hfails, refusal?, if_pos htoFail]
  · have hgoes : ¬ s.isToFail "upsert" (s.made "upsert" + 0 + 1) = true := by
      intro htoFail
      rw [hok, if_pos htoFail] at hcall
      cases hcall
    have hputting : upsert name batch s = putting name batch s' := by
      rw [upsert_eq_counting, counting, hok]
    rw [hputting, refusal?, if_neg hgoes, putting, halike.existing]
    cases s.existing name <;> rfl

theorem made_upsert (name : Value) (batch : List Point) (s : VectorServer) :
    (upsert name batch s).2.made "upsert" = s.made "upsert" + 1 := by
  rw [← made_enter s "upsert", upsert_eq_counting, counting]
  rcases s.enter "upsert" with ⟨f | _, s'⟩
  · rfl
  · unfold putting
    dsimp only
    split <;> rfl

/-- A batch is stored if the server does not refuse it. -/
theorem upsert_of_accepted (batch : List Point) (h : s.refusal? name 0 = none) :
    ∃ s', upsert name batch s = (.ok (), s') ∧ Took name [batch] 1 s s' := by
  have hfst := upsert_fst name batch s
  have hmade := made_upsert name batch s
  rw [h] at hfst
  obtain ⟨f, s', hfails, -⟩ | ⟨s', hok, hput⟩ := upsert_cases name batch s
  · rw [hfails] at hfst
    cases hfst
  · rw [hok] at hmade
    exact ⟨s', hok, hput, hmade⟩

/-- Nothing is stored if the server refuses a batch. -/
theorem upsert_of_refused (batch : List Point) {cause : ServerFault}
    (h : s.refusal? name 0 = some cause) :
    ∃ s', upsert name batch s = (.error cause, s') ∧ Took name [] 1 s s' := by
  have hfst := upsert_fst name batch s
  have hmade := made_upsert name batch s
  rw [h] at hfst
  obtain ⟨f, s', hfails, halike⟩ | ⟨s', hok, -⟩ := upsert_cases name batch s
  · rw [hfails] at hfst hmade
    obtain rfl := Except.error.inj hfst
    exact ⟨s', hfails, halike.put name, hmade⟩
  · rw [hok] at hfst
    cases hfst

end VectorServer

/-! ## Records that can be stored -/

namespace Record

/-- A record has an embedding of a size, and a payload with a JSON form. -/
def isUsable (size : Int) (r : Record) : Bool :=
  (r.embedding.any fun v => (v.length : Int) == size) && r.payload.isSerializable

/-- The point of a record that can be stored. -/
def toPoint (r : Record) : Point := ⟨[], r.embedding.getD [], r.payload⟩

end Record

namespace VectorStore

open VectorServer

theorem point?_eq (st : VectorStore) (r : Record) :
    st.point? r = if r.isUsable st.vectorSize then some r.toPoint else none := by
  unfold point? Record.isUsable Record.toPoint
  cases r.embedding with
  | none => rfl
  | some v =>
    by_cases hsize : (v.length : Int) = st.vectorSize
    · simp [hsize]
    · simp [hsize]

theorem filterMap_point? (st : VectorStore) (rs : List Record) :
    rs.filterMap st.point? = (rs.filter (Record.isUsable st.vectorSize)).map Record.toPoint := by
  induction rs with
  | nil => rfl
  | cons r rest ih =>
    rw [List.filterMap_cons, point?_eq, ih]
    by_cases husable : r.isUsable st.vectorSize <;> simp [husable]

/-! ## Sending batches -/

/-- Where the server refuses none of the batches, all of them are sent and stored. -/
theorem sendBatches_of_accepted (name : Value) (total : Nat) (bs : List (List Point)) :
    ∀ (sent stored : Nat) {s : VectorServer}, (∀ n < bs.length, s.refusal? name n = none) →
      ∃ s', sendBatches name total sent stored bs s = (.ok (), s') ∧
        Took name bs bs.length s s' := by
  -- The batches behind the first one are sent with other numbers and from another server.
  induction bs with
  | nil => exact fun sent stored s _ => ⟨s, rfl, (Alike.refl s).put name, rfl⟩
  | cons batch rest ih =>
    intro sent stored s haccepted
    obtain ⟨s', hok, htook⟩ := upsert_of_accepted batch (haccepted 0 (Nat.succ_pos _))
    obtain ⟨s'', hsent, htooks⟩ := ih (sent + 1) (stored + batch.length) (htook.accepts haccepted)
    refine ⟨s'', ?_, ?_⟩
    · rw [sendBatches, Action.bind_of_ok (call_of_ok hok), hsent]
    · have hall := htook.trans htooks
      rw [Nat.add_comm] at hall
      exact hall

/-- Where the server refuses a batch and none before it, the batches are sent up to that one, those
before it are stored, and the fault names it and its points. -/
theorem sendBatches_of_refused (name : Value) (total : Nat) {cause : ServerFault}
    (bs : List (List Point)) :
    ∀ (k sent stored : Nat) {s : VectorServer}, k < bs.length →
      (∀ n < k, s.refusal? name n = none) → s.refusal? name k = some cause →
      ∃ s', sendBatches name total sent stored bs s =
          (.error (.upsertFailed (sent + k + 1) total (stored + (bs.take k).flatten.length)
            (stored + (bs.take (k + 1)).flatten.length) cause), s') ∧
        Took name (bs.take k) (k + 1) s s' := by
  induction bs with
  | nil => exact fun k sent stored s hk => absurd hk (Nat.not_lt_zero k)
  | cons batch rest ih =>
    intro k sent stored s hk haccepted hrefused
    cases k with
    | zero =>
      obtain ⟨s', hfails, htook⟩ := upsert_of_refused batch hrefused
      refine ⟨s', ?_, htook⟩
      rw [sendBatches, Action.bind_of_error (call_of_error hfails)]
      simp
    | succ k =>
      obtain ⟨s', hok, htook⟩ := upsert_of_accepted batch (haccepted 0 (Nat.succ_pos _))
      have hrefused' : s'.refusal? name k = some cause := by
        rw [htook.refusal?, Nat.add_comm]
        exact hrefused
      obtain ⟨s'', hsent, htooks⟩ := ih k (sent + 1) (stored + batch.length)
        (Nat.lt_of_succ_lt_succ hk) (htook.accepts haccepted) hrefused'
      refine ⟨s'', ?_, ?_⟩
      · rw [sendBatches, Action.bind_of_ok (call_of_ok hok), hsent]
        simp only [List.take_succ_cons, List.flatten_cons, List.length_append, Nat.add_assoc,
          Nat.add_comm 1]
      · have hall := htook.trans htooks
        rw [Nat.add_comm 1] at hall
        exact hall

/-! ## Upserts -/

theorem coe_batchSizeOf (n : Int) : (batchSizeOf n : Int) = max 1 n := by
  unfold batchSizeOf
  omega

/-- Before a batch that there is, all batches are full. -/
theorem length_flatten_take_batches {α : Type} {size : Nat} {pos : 0 < size} {xs : List α} {k : Nat}
    (hk : k < (batches size pos xs).length) :
    ((batches size pos xs).take k).flatten.length = k * size := by
  rw [length_batches, Nat.lt_div_iff_mul_lt pos] at hk
  rw [flatten_take_batches, List.length_take]
  omega

/-- An upsert cuts the points of the records that can be stored into batches of the size of the
store, in their order.  Where the server refuses none of them, all are stored and their number is
the result.  Where it refuses one, the fault names that one and the number of batches, those before
it are stored, and none is sent behind it. -/
theorem upsert_sendsBatches (url : Value) (embedder : Option Embedder) (vectorSize batchSize : Int)
    (name : Value) (rs : List Record) (s : VectorServer) :
    let st := make url embedder vectorSize batchSize
    let usable := rs.filter (Record.isUsable vectorSize)
    let bs := st.batchesOf rs
    let result := st.upsert name rs s
    bs.flatten = usable.map Record.toPoint ∧
    (∀ batch ∈ bs, batch ≠ [] ∧ (batch.length : Int) ≤ max 1 batchSize) ∧
    bs.length = (usable.length + st.batchSize - 1) / st.batchSize ∧
    ((∀ n < bs.length, s.refusal? name n = none) →
      result.1 = .ok usable.length ∧ Took name bs bs.length s result.2) ∧
    ∀ k cause, k < bs.length → (∀ n < k, s.refusal? name n = none) →
      s.refusal? name k = some cause →
      let fault := Fault.upsertFailed (k + 1) bs.length (k * st.batchSize)
        (min ((k + 1) * st.batchSize) usable.length) cause
      result.1 = .error fault ∧
      (Text.ofString "Failed to upsert batch " ++ Text.ofNat (k + 1) ++ Text.ofString "/" ++
        Text.ofNat bs.length) <+: fault.message ∧
      Took name (bs.take k) (k + 1) s result.2 := by
  intro st usable bs result
  have hpoints : rs.filterMap st.point? = usable.map Record.toPoint := filterMap_point? st rs
  have hbs : bs = batches st.batchSize st.batchSize_pos (usable.map Record.toPoint) :=
    congrArg (batches st.batchSize st.batchSize_pos) hpoints
  have hlength : (rs.filterMap st.point?).length = usable.length := by
    rw [hpoints, List.length_map]
  refine ⟨?_, ?_, ?_, ?_, ?_⟩
  · rw [hbs, flatten_batches]
  · intro batch hbatch
    refine ⟨ne_nil_of_mem_batches hbatch, ?_⟩
    rw [← coe_batchSizeOf batchSize]
    exact Int.ofNat_le.2 (length_le_of_mem_batches hbatch)
  · rw [hbs, length_batches, List.length_map]
  · intro haccepted
    obtain ⟨s', hsent, htook⟩ := sendBatches_of_accepted name bs.length bs 0 0 haccepted
    have hupsert : result = (.ok _, s') := Action.bind_of_ok hsent
    rw [hupsert, ← hlength]
    exact ⟨rfl, htook⟩
  · intro k cause hk haccepted hrefused fault
    obtain ⟨s', hsent, htook⟩ :=
      sendBatches_of_refused name bs.length bs k 0 0 hk haccepted hrefused
    have hfirst : (bs.take k).flatten.length = k * st.batchSize := length_flatten_take_batches hk
    have hlast : (bs.take (k + 1)).flatten.length =
        min ((k + 1) * st.batchSize) usable.length := by
      rw [hbs, flatten_take_batches, List.length_take, List.length_map]
    have hupsert : result = (.error _, s') := Action.bind_of_error hsent
    rw [hfirst, hlast, Nat.zero_add, Nat.zero_add, Nat.zero_add] at hupsert
    refine ⟨by rw [hupsert], ?_, by rw [hupsert]; exact htook⟩
    simp [fault, Fault.message, List.append_assoc]

/-! Three records in batches of one, at a server that fails at the second batch. -/

/-- The server that fails at the second batch, with a collection. -/
def readyToFail : VectorServer := (oneByOne.create (.text "code") failsAtSecond).2

theorem upsert_sendsBatches_secondFails :
    let st := make .null none 1 1
    let rs := [smallRecord, smallRecord, smallRecord]
    let result := st.upsert (.text "code") rs readyToFail
    (st.batchesOf rs).length = 3 ∧
      (∀ n < 1, readyToFail.refusal? (.text "code") n = none) ∧
      readyToFail.refusal? (.text "code") 1 = some (.injected "upsert") ∧
      result.1 = .error (.upsertFailed 2 3 1 2 (.injected "upsert")) ∧
      Took (.text "code") ((st.batchesOf rs).take 1) 2 readyToFail result.2 := by
  intro st rs result
  have hbatches : (st.batchesOf rs).length = 3 := by decide +kernel
  have haccepted : ∀ n < 1, readyToFail.refusal? (.text "code") n = none := by decide +kernel
  have hrefused : readyToFail.refusal? (.text "code") 1 = some (.injected "upsert") := by
    decide +kernel
  have husable : (rs.filter (Record.isUsable 1)).length = 3 := by decide +kernel
  obtain ⟨-, -, -, -, hfails⟩ :=
    upsert_sendsBatches .null none 1 1 (.text "code") rs readyToFail
  obtain ⟨hfault, -, htook⟩ :=
    hfails 1 (.injected "upsert") (hbatches.symm ▸ Nat.one_lt_succ_succ 1) haccepted hrefused
  have hlength : ((make .null none 1 1).batchesOf rs).length = 3 := hbatches
  rw [hlength, husable] at hfault
  exact ⟨hbatches, haccepted, hrefused, hfault, htook⟩

end VectorStore

end CodeCatalog
