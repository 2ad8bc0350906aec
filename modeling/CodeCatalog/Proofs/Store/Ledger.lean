import CodeCatalog.Proofs.Store.Calls
import CodeCatalog.Proofs.Store.Ranking
import Mathlib.Data.List.Induction
set_option autoImplicit false

/-!
# The ledger of a store

The calls of a run and what they gave are kept as events, the latest first.  From the events alone
it can be told which points a collection holds: those of the batches that were stored since the
last call that made the collection.  This holds whichever calls of the server fail, and since every
stored point was made from a record, a search can read all that it finds.
-/

namespace CodeCatalog

/-! ## Calls and events -/

/-- A call of a store. -/
inductive StoreCall where
  | create (name : Value)
  | upsert (name : Value) (rs : List Record)
  | search (name : Value) (vector : List Double) (topK : Value)
  | count (name : Value)
  | list
  | delete (name : Value)

namespace StoreCall

/-- What a call gives if it succeeds. -/
@[reducible] def Reply : StoreCall → Type
  | create _ => Bool
  | upsert _ _ => Nat
  | search _ _ _ => List (Double × Record)
  | count _ => Nat
  | list => List Value
  | delete _ => Bool

/-- What a call of a store does. -/
def perform (st : VectorStore) : (call : StoreCall) → Action VectorServer call.Reply
  | create name => st.create name
  | upsert name rs => st.upsert name rs
  | search name vector topK => VectorStore.search name vector topK
  | count name => VectorStore.count name
  | list => VectorStore.list
  | delete name => VectorStore.delete name

end StoreCall

/-- A call that was made, and what it gave. -/
structure StoreEvent where
  call : StoreCall
  outcome : Outcome call.Reply

/-- The event of a call that is made of a server. -/
def StoreCall.event (st : VectorStore) (s : VectorServer) (call : StoreCall) : StoreEvent :=
  ⟨call, (call.perform st s).1⟩

namespace StoreEvent

/-- The collection of a key was made. -/
def isCreation (key : Key) : StoreEvent → Bool
  | ⟨.create name, .ok true⟩ => name.names key
  | _ => false

/-- The batches that were stored. -/
def batches (st : VectorStore) : StoreEvent → List (List Point)
  | ⟨.upsert _ rs, outcome⟩ => st.storedBatches rs outcome
  | _ => []

/-- The points that were put into the collection of a key. -/
def points (st : VectorStore) (key : Key) (e : StoreEvent) : List Point :=
  match e.call with
  | .upsert name _ => if name.names key then (e.batches st).flatten else []
  | _ => []

end StoreEvent

namespace VectorStore

/-- The points put into the collection of a key since it was made last. -/
def pointsSince (st : VectorStore) (key : Key) : List StoreEvent → List Point
  | [] => []
  | e :: earlier =>
    if e.isCreation key then [] else st.pointsSince key earlier ++ e.points st key

end VectorStore

/-- The server that a run has led to, and the events of the run, the latest first. -/
structure StoreHistory where
  events : List StoreEvent
  server : VectorServer

namespace VectorStore

/-- A run goes on with a call. -/
def goOn (st : VectorStore) (h : StoreHistory) (call : StoreCall) : StoreHistory :=
  ⟨call.event st h.server :: h.events, (call.perform st h.server).2⟩

/-- A run of calls, one after another. -/
def run (st : VectorStore) (start : VectorServer) (calls : List StoreCall) : StoreHistory :=
  calls.foldl st.goOn ⟨[], start⟩

theorem run_concat (st : VectorStore) (start : VectorServer) (calls : List StoreCall)
    (call : StoreCall) : st.run start (calls ++ [call]) = st.goOn (st.run start calls) call := by
  rw [run, List.foldl_append]
  rfl

open VectorServer

variable {st : VectorStore} {start s : VectorServer} {events : List StoreEvent}

/-! ## What one call does -/

/-- What a call does to the collections, told by its event: a collection was made without points,
or it was there before and has the points of the event behind those that it had. -/
def Follows (st : VectorStore) (s : VectorServer) (e : StoreEvent) (c : Collection) : Prop :=
  (e.isCreation c.key = true ∧ c.points = []) ∨
    (e.isCreation c.key = false ∧
      ∃ c' ∈ s.collections, c'.key = c.key ∧ c.points = c'.points ++ e.points st c.key)

/-- A collection that a call left alone. -/
theorem follows_of_mem {e : StoreEvent} {c : Collection} (hmem : c ∈ s.collections)
    (hcreation : e.isCreation c.key = false) (hpoints : e.points st c.key = []) :
    Follows st s e c :=
  .inr ⟨hcreation, c, hmem, rfl, by rw [hpoints, List.append_nil]⟩

theorem isCreation_create {name : Value} {outcome : Outcome Bool} {key : Key} :
    StoreEvent.isCreation key ⟨.create name, outcome⟩ = true ↔
      outcome = .ok true ∧ name.names key = true := by
  cases outcome with
  | error f => simp [StoreEvent.isCreation]
  | ok made => cases made <;> simp [StoreEvent.isCreation]

theorem follows_of_create {name : Value} {c : Collection}
    (hc : c ∈ (st.create name s).2.collections) :
    Follows st s ((StoreCall.create name).event st s) c := by
  obtain ⟨hnot, halike⟩ | ⟨hmade, ⟨key, hname, hcollections⟩, -, -⟩ := st.create_cases name s
  · rw [halike.collections] at hc
    refine follows_of_mem hc (Bool.eq_false_iff.2 fun hcreation => ?_) rfl
    exact hnot (isCreation_create.1 hcreation).1
  · rw [hcollections, List.mem_append, List.mem_filter, List.mem_singleton] at hc
    obtain ⟨hmem, hkey⟩ | rfl := hc
    · refine follows_of_mem hmem (Bool.eq_false_iff.2 fun hcreation => ?_) rfl
      have hsame := Value.names_unique (isCreation_create.1 hcreation).2 hname
      simp [hsame] at hkey
    · exact .inl ⟨isCreation_create.2 ⟨hmade, hname⟩, rfl⟩

theorem follows_of_upsert {name : Value} {rs : List Record} {c : Collection}
    (hc : c ∈ (st.upsert name rs s).2.collections) :
    Follows st s ((StoreCall.upsert name rs).event st s) c := by
  rw [(st.upsert_puts name rs s).collections] at hc
  obtain ⟨c', hmem, rfl⟩ := List.mem_map.1 hc
  refine .inr ⟨rfl, c', hmem, Collection.key_putting.symm, ?_⟩
  rw [Collection.points_putting, Collection.key_putting]
  rfl

/-- The step of a run: every collection after a call follows from those before by its event. -/
theorem follows_of_mem_perform {call : StoreCall} {c : Collection}
    (hc : c ∈ (call.perform st s).2.collections) : Follows st s (call.event st s) c := by
  cases call with
  | create name => exact follows_of_create hc
  | upsert name rs => exact follows_of_upsert hc
  | search name vector topK =>
    have halike := searchRanked_alike (rankNearest vector) name topK s
    exact follows_of_mem (halike.collections ▸ hc) rfl rfl
  | count name => exact follows_of_mem ((count_alike name s).collections ▸ hc) rfl rfl
  | list => exact follows_of_mem ((list_alike s).collections ▸ hc) rfl rfl
  | delete name => exact follows_of_mem ((delete_sublist name s).1.subset hc) rfl rfl

/-! ## What a run leads to -/

/-- Every collection holds the points that the events tell of. -/
theorem points_eq_pointsSince (st : VectorStore) (hempty : start.collections = [])
    (calls : List StoreCall) :
    ∀ c ∈ (st.run start calls).server.collections,
      c.points = st.pointsSince c.key (st.run start calls).events := by
  -- A call acts on the server that the calls before it led to, so calls are added at the end.
  induction calls using List.reverseRecOn with
  | nil =>
    change ∀ c ∈ start.collections, c.points = []
    rw [hempty]
    exact nofun
  | append_singleton calls call ih =>
    rw [run_concat]
    intro c hc
    rw [goOn, pointsSince]
    obtain ⟨hcreation, hpoints⟩ | ⟨hcreation, c', hmem, hkey, hpoints⟩ :=
      follows_of_mem_perform hc
    · rw [if_pos hcreation, hpoints]
    · rw [if_neg (Bool.eq_false_iff.1 hcreation), hpoints, ih c' hmem, hkey]

/-- The points of an event were made from records. -/
theorem exists_point?_of_mem_points {e : StoreEvent} {key : Key} {p : Point}
    (hp : p ∈ e.points st key) : ∃ r, st.point? r = some p := by
  obtain ⟨call, outcome⟩ := e
  cases call with
  | upsert name rs =>
    simp only [StoreEvent.points, StoreEvent.batches] at hp
    split at hp
    · obtain ⟨batch, hbatch, hp⟩ := List.mem_flatten.1 hp
      have hmem := (st.storedBatches_sublist rs outcome).subset hbatch
      obtain ⟨r, -, hr⟩ := exists_point?_of_mem_batchesOf (List.mem_flatten_of_mem hmem hp)
      exact ⟨r, hr⟩
    · cases hp
  | _ => cases hp

theorem exists_point?_of_mem_pointsSince {key : Key} {p : Point}
    (hp : p ∈ st.pointsSince key events) : ∃ r, st.point? r = some p := by
  induction events with
  | nil => cases hp
  | cons e earlier ih =>
    rw [pointsSince] at hp
    split at hp
    · cases hp
    · exact (List.mem_append.1 hp).elim ih exists_point?_of_mem_points

/-- The server takes the batches that an event tells of. -/
theorem batches_of_perform (st : VectorStore) (s : VectorServer) (call : StoreCall) :
    (call.perform st s).2.batches =
      s.batches ++ ((call.event st s).batches st).map List.length := by
  have halike : Alike s (call.perform st s).2 → (call.event st s).batches st = [] →
      (call.perform st s).2.batches =
        s.batches ++ ((call.event st s).batches st).map List.length := by
    intro halike hnone
    rw [halike.batches, hnone, List.map_nil, List.append_nil]
  cases call with
  | upsert name rs => exact (st.upsert_puts name rs s).batches
  | create name =>
    obtain ⟨-, hcreate⟩ | ⟨-, hmade⟩ := st.create_cases name s
    · exact halike hcreate rfl
    · exact hmade.batches.trans (List.append_nil _).symm
  | search name vector topK => exact halike (searchRanked_alike _ name topK s) rfl
  | count name => exact halike (count_alike name s) rfl
  | list => exact halike (list_alike s) rfl
  | delete name => exact (delete_sublist name s).2.trans (List.append_nil _).symm

/-- The batches that the server stored are those that the events tell of. -/
theorem batches_run (st : VectorStore) (start : VectorServer) (calls : List StoreCall) :
    (st.run start calls).server.batches = start.batches ++
      ((st.run start calls).events.reverse.flatMap fun e => e.batches st).map List.length := by
  induction calls using List.reverseRecOn with
  | nil => exact (List.append_nil _).symm
  | append_singleton calls call ih =>
    rw [run_concat, goOn, batches_of_perform, ih, List.reverse_cons, List.flatMap_append,
      List.flatMap_singleton, List.map_append, List.append_assoc]

/-- What holds of the server that a run has led to, given the events of the run. -/
structure IsAccounted (st : VectorStore) (start : VectorServer) (h : StoreHistory) : Prop where
  /-- Every stored vector has the size of the store. -/
  vectors : ∀ c ∈ h.server.collections, ∀ p ∈ c.points, (p.vector.length : Int) = st.vectorSize
  /-- Every stored payload can be read. -/
  payloads : ∀ c ∈ h.server.collections, ∀ p ∈ c.points, ∃ r, Record.ofValue p.payload = .ok r
  /-- A search fails only as the server does. -/
  searches : ∀ name vector topK fault, (search name vector topK h.server).1 = .error fault →
    ∃ cause, fault = .queryFailed name.shown cause
  /-- What is counted are the points put into the collection since it was made last. -/
  counts : ∀ name n, (count name h.server).1 = .ok n →
    ∃ key, name.names key = true ∧ n = (st.pointsSince key h.events).length
  /-- The batches that the events tell of are those that the server stored. -/
  batches : h.server.batches = start.batches ++
    (h.events.reverse.flatMap fun e => e.batches st).map List.length

/-- Whatever calls are made and whichever calls of the server fail, from a server without
collections they lead to one whose points can all be searched and read, and whose counts are those
of the points that were stored since a collection was made. -/
theorem run_isAccounted (st : VectorStore) {start : VectorServer} (hempty : start.collections = [])
    (calls : List StoreCall) : IsAccounted st start (st.run start calls) := by
  have hledger := st.points_eq_pointsSince hempty calls
  have hpoints : ∀ c ∈ (st.run start calls).server.collections, ∀ p ∈ c.points,
      ∃ r, st.point? r = some p := by
    intro c hc p hp
    rw [hledger c hc] at hp
    exact exists_point?_of_mem_pointsSince hp
  refine ⟨?_, ?_, ?_, ?_, st.batches_run start calls⟩
  · intro c hc p hp
    obtain ⟨r, hr⟩ := hpoints c hc p hp
    exact (of_point?_eq_some hr).1
  · intro c hc p hp
    obtain ⟨r, hr⟩ := hpoints c hc p hp
    rw [(of_point?_eq_some hr).2]
    exact ⟨_, r.ofValue_payload⟩
  · intro name vector topK fault hfails
    refine exists_cause_of_searchRanked (fun c hc hit hhit => ?_) hfails
    obtain ⟨r, hr⟩ := hpoints c hc hit.2 (mem_of_mem_rankNearest hhit)
    exact ⟨_, recordOf_of_payload (of_point?_eq_some hr).2⟩
  · intro name n hcount
    obtain ⟨n', hn', hcalled⟩ | ⟨cause, -, hfails⟩ :=
      call_cases (.countFailed name.shown) (VectorServer.count name) (st.run start calls).server
    · rw [count, hcalled] at hcount
      cases hcount
      obtain ⟨c, hc, hname, rfl⟩ := exists_mem_of_count hn'
      exact ⟨c.key, hname, by rw [hledger c hc]⟩
    · rw [count, hfails] at hcount
      cases hcount

/-! A run of two records, in batches of one: the second batch fails, so the collection holds one
point. -/

/-- A record with a vector of one component. -/
def smallRecord : Record :=
  ⟨.text "f", .text "f()", .text Kind.function, none, 1, 1, 1,
    ⟨.text "a.py", .text "a.py", .text "def f(): pass", none, none⟩, some [Double.one]⟩

/-- A store of vectors of one component that sends each point by itself. -/
def oneByOne : VectorStore := make .null none 1 1

/-- A server that fails at the second batch. -/
def failsAtSecond : VectorServer := { failing := [("upsert", [2])] }

/-- The calls that store two records at the server. -/
def storesTwo : List StoreCall :=
  [.create (.text "code"), .upsert (.text "code") [smallRecord, smallRecord]]

theorem run_isAccounted_secondFails :
    failsAtSecond.collections = [] ∧
      (count (.text "code") (oneByOne.run failsAtSecond storesTwo).server).1 = .ok 1 ∧
      IsAccounted oneByOne failsAtSecond (oneByOne.run failsAtSecond storesTwo) := by
  refine ⟨rfl, ?_, run_isAccounted oneByOne rfl storesTwo⟩
  decide +kernel

end VectorStore

end CodeCatalog
