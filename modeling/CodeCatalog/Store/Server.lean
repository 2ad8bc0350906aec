import CodeCatalog.Fault
import CodeCatalog.Store.Ranking
import CodeCatalog.Value.Key
set_option autoImplicit false

/-!
# The vector server

A server in memory that keeps points in named collections: a vector and a payload for each.  Any
value that can be a key names a collection.  A query ranks the points of a collection and gives
the first of them.  Calls are counted by method, and a call can be made to fail.
-/

namespace CodeCatalog

/-- A collection of points. -/
structure Collection where
  key : Key
  name : Value
  size : Int
  points : List Point

/-- A server with its ledger: the calls of each method that are made to fail, the number of
calls so far, and the sizes of the batches that were stored. -/
structure VectorServer where
  collections : List Collection := []
  failing : List (String × List Nat) := []
  calls : List (String × Nat) := []
  batches : List Nat := []

/-- The measure by which collections compare vectors. -/
def distanceName : Text := "Cosine"

namespace VectorServer

/-- Counts a call of a method, and fails if the call is one of those that are to fail. -/
def enter (s : VectorServer) (method : String) : Except ServerFault Unit × VectorServer :=
  let n := (s.calls.lookup method).getD 0 + 1
  let s' := { s with calls := (method, n) :: s.calls.filter fun c => c.1 != method }
  if ((s.failing.lookup method).getD []).contains n then (.error (.injected method), s')
  else (.ok (), s')

/-- The key of a name. -/
def keyOf (name : Value) : Except ServerFault Key :=
  match name.key with
  | .ok k => .ok k
  | .error _ => .error (.noName name.typeName)

/-- The collection of a key. -/
def collection? (s : VectorServer) (key : Key) : Option Collection :=
  s.collections.find? fun c => c.key == key

/-- The collection of a name, if there is one. -/
def lookup (s : VectorServer) (name : Value) : Except ServerFault (Option Collection) :=
  (keyOf name).map s.collection?

/-- The collection of a name, which has to be there. -/
def existing (s : VectorServer) (name : Value) : Except ServerFault Collection := do
  match ← s.lookup name with
  | some c => return c
  | none => throw (.noCollection name.shown)

/-- Whether there is a collection. -/
def hasCollection (name : Value) (s : VectorServer) : Except ServerFault Bool × VectorServer :=
  match s.enter "exists" with
  | (.error f, s) => (.error f, s)
  | (.ok (), s) => ((s.lookup name).map Option.isSome, s)

/-- Makes a collection without points. -/
def create (name : Value) (size : Int) (s : VectorServer) :
    Except ServerFault Unit × VectorServer :=
  match s.enter "create" with
  | (.error f, s) => (.error f, s)
  | (.ok (), s) =>
    match keyOf name with
    | .error f => (.error f, s)
    | .ok key =>
      (.ok (), { s with
        collections := (s.collections.filter fun c => c.key != key) ++ [⟨key, name, size, []⟩] })

/-- Puts points behind those of a collection. -/
def addPoints (key : Key) (points : List Point) (s : VectorServer) : VectorServer :=
  { s with collections := s.collections.map fun c =>
      if c.key = key then { c with points := c.points ++ points } else c }

/-- Stores a batch of points. -/
def upsert (name : Value) (points : List Point) (s : VectorServer) :
    Except ServerFault Unit × VectorServer :=
  match s.enter "upsert" with
  | (.error f, s) => (.error f, s)
  | (.ok (), s) =>
    match s.existing name with
    | .error f => (.error f, s)
    | .ok c =>
      (.ok (), { s.addPoints c.key points with batches := s.batches ++ [points.length] })

/-- The leading points up to a limit: all of them for `null`. -/
def firstOf {α : Type} (limit : Value) (points : List α) : Except ServerFault (List α) :=
  match limit with
  | .null => .ok points
  | .int n => .ok (upTo n points)
  | .bool b => .ok (upTo (if b then 1 else 0) points)
  | _ => .error .badLimit

/-- The first points of a collection as they are ranked. -/
def query {S : Type} (ranked : List Point → List (S × Point)) (name limit : Value)
    (s : VectorServer) : Except ServerFault (List (S × Point)) × VectorServer :=
  match s.enter "query" with
  | (.error f, s) => (.error f, s)
  | (.ok (), s) => (s.existing name >>= fun c => firstOf limit (ranked c.points), s)

/-- The number of points of a collection. -/
def count (name : Value) (s : VectorServer) : Except ServerFault Nat × VectorServer :=
  match s.enter "count" with
  | (.error f, s) => (.error f, s)
  | (.ok (), s) => ((s.existing name).map fun c => c.points.length, s)

/-- The names of the collections in the order in which they were made. -/
def list (s : VectorServer) : Except ServerFault (List Value) × VectorServer :=
  match s.enter "list" with
  | (.error f, s) => (.error f, s)
  | (.ok (), s) => (.ok (s.collections.map Collection.name), s)

/-- Deletes a collection, and tells whether there was one. -/
def delete (name : Value) (s : VectorServer) : Except ServerFault Bool × VectorServer :=
  match s.enter "delete" with
  | (.error f, s) => (.error f, s)
  | (.ok (), s) =>
    match keyOf name with
    | .error f => (.error f, s)
    | .ok key =>
      (.ok (s.collection? key).isSome,
        { s with collections := s.collections.filter fun c => c.key != key })

end VectorServer

end CodeCatalog
