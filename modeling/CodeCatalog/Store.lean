import CodeCatalog.Action
import CodeCatalog.Embedding.Embedder
import CodeCatalog.Entity.Record
import CodeCatalog.Store.Server
set_option autoImplicit false

/-!
# Vector stores

A store keeps records with embeddings in the collections of a vector server.  Records
without an embedding of the store's size, or with a payload that has no JSON form, are left
out; the others are sent in batches, and the first batch that fails ends an upsert.
-/

namespace CodeCatalog

/-- A client of the vector server as it was set up. -/
structure ServerClient where
  url : Value
  apiKey : Value

/-- A vector store.  A batch has at least one point. -/
structure VectorStore where
  url : Value
  embedder : Option Embedder
  vectorSize : Int
  batchSize : Nat
  batchSize_pos : 0 < batchSize := by omega

namespace VectorStore

/-- The size of batches for a given number: at least one. -/
def batchSizeOf (n : Int) : Nat := (max 1 n).toNat

theorem batchSizeOf_pos (n : Int) : 0 < batchSizeOf n := by
  unfold batchSizeOf
  omega

/-- A store whose batch size is raised to one if it is below. -/
def make (url : Value) (embedder : Option Embedder) (vectorSize batchSize : Int) : VectorStore :=
  ⟨url, embedder, vectorSize, batchSizeOf batchSize, batchSizeOf_pos batchSize⟩

/-- The name of the kind of vector server that there is. -/
def backendName : Text := "qdrant"

/-- The store of the settings, which is as large as the embedder's vectors if there is an
embedder, and the client that it needs. -/
def ofSettings (settings : Value) (embedder : Option Embedder) :
    Outcome (VectorStore × ServerClient) := do
  let part ← Outcome.ofData (Settings.part settings "vector_store")
  match ← Outcome.ofData (part.member? "backend") with
  | none => pure ()
  | some (.text t) => if t ≠ backendName then throw (.badBackend t)
  | some v => throw (.badBackend v.shown)
  Outcome.ofData do
    let server ← Settings.part part "qdrant"
    let sizeSetting ← (← Settings.part settings "embedding").member? "dimension"
    let url := (← server.member "url").orElse (.text Settings.defaultUrl)
    let size ← match embedder with
      | some e => pure e.dimension
      | none => (sizeSetting.getD (.int Settings.defaultDimension)).toInteger
    let apiKey ← server.member "api_key"
    let batchSize ← ((← server.member? "batch_size").getD (.int Settings.usualBatchSize)).toInteger
    return (make url embedder size batchSize, ⟨url, apiKey⟩)

/-- A call of the server as an action that reports its fault in the store's words. -/
def call {α : Type} (report : ServerFault → Fault)
    (f : VectorServer → Except ServerFault α × VectorServer) : Action VectorServer α := fun s =>
  let r := f s
  (r.1.mapError report, r.2)

/-- Makes a collection unless there is one; tells whether it was made. -/
def create (st : VectorStore) (name : Value) : Action VectorServer Bool := do
  if ← call (.createFailed name.shown) (VectorServer.hasCollection name) then return false
  call (.createFailed name.shown) (VectorServer.create name st.vectorSize)
  return true

/-- The point of a record, if the record can be stored. -/
def point? (st : VectorStore) (r : Record) : Option Point :=
  match r.embedding with
  | none => none
  | some v =>
    if (v.length : Int) = st.vectorSize then
      if r.payload.isSerializable then some ⟨[], v, r.payload⟩ else none
    else none

/-- Cuts a list into batches of a size and one shorter rest. -/
def batches {α : Type} (size : Nat) (pos : 0 < size) (xs : List α) : List (List α) :=
  match xs with
  | [] => []
  | x :: rest => (x :: rest).take size :: batches size pos ((x :: rest).drop size)
termination_by xs.length
decreasing_by simp only [List.length_drop, List.length_cons]; omega

/-- Sends batches in order, `sent` batches with `stored` points having been sent before. -/
def sendBatches (name : Value) (total : Nat) :
    (sent stored : Nat) → List (List Point) → Action VectorServer Unit
  | _, _, [] => pure ()
  | sent, stored, batch :: rest => do
    call (.upsertFailed (sent + 1) total stored (stored + batch.length))
      (VectorServer.upsert name batch)
    sendBatches name total (sent + 1) (stored + batch.length) rest

/-- Stores the records that can be stored, and tells how many there were. -/
def upsert (st : VectorStore) (name : Value) (rs : List Record) : Action VectorServer Nat := do
  let points := rs.filterMap st.point?
  let bs := batches st.batchSize st.batchSize_pos points
  sendBatches name bs.length 0 0 bs
  return points.length

/-- The payload of a point; an empty one stands for none. -/
def payloadOf (p : Point) : Value := if p.payload.isPresent then p.payload else .object []

/-- The record of a point, without its embedding. -/
def recordOf (name : Value) (p : Point) : Outcome Record :=
  match Record.ofValue (payloadOf p) with
  | .ok r => .ok { r with embedding := none }
  | .error f => .error (if f.isMalformed then .malformedPayload p.id name.shown f else .data f)

/-- The records of the first points as they are ranked. -/
def searchRanked {S : Type} (ranked : List Point → List (S × Point)) (name topK : Value) :
    Action VectorServer (List (S × Record)) := do
  let hits ← call (.queryFailed name.shown) (VectorServer.query ranked name topK)
  Action.ofOutcome (hits.mapM fun h => (recordOf name h.2).map fun r => (h.1, r))

/-- The records of the best points for a score. -/
def searchBy {S : Type} (score : List Double → S) (worse : S → S → Bool) (name : Value)
    (topK : Int) : Action VectorServer (List (S × Record)) :=
  searchRanked (rank score worse) name (.int topK)

/-- The records nearest to a vector, the best first. -/
def search (name : Value) (vector : List Double) (topK : Value) :
    Action VectorServer (List (Double × Record)) :=
  searchRanked (rankNearest vector) name topK

/-- The number of points of a collection. -/
def count (name : Value) : Action VectorServer Nat :=
  call (.countFailed name.shown) (VectorServer.count name)

/-- The names of the collections. -/
def list : Action VectorServer (List Value) := call .listFailed VectorServer.list

/-- Deletes a collection, and tells whether there was one. -/
def delete (name : Value) : Action VectorServer Bool :=
  call (.deleteFailed name.shown) (VectorServer.delete name)

end VectorStore

end CodeCatalog
