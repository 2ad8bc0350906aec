import CodeCatalog.Surroundings
set_option autoImplicit false

/-!
# Retrieval

Finds the records of a collection whose vectors are nearest to that of a text.  The request
for the vector of the text is retried under the standard policy.
-/

namespace CodeCatalog

namespace Settings

/-- The default number of records that a query returns. -/
def usualHits : Int := 10

/-- The number of records that a query returns. -/
def topK (settings : Value) : Except DataFault Value := do
  let setting ← (← part settings "search").member? "top_k"
  return .int (← (setting.getD (.int usualHits)).toInteger)

end Settings

namespace Surroundings

variable {σ : Type}

/-- The vector of a value, which has to be a text, retried under the standard policy. -/
def embedQuery (embedder : Embedder) (text : Value) : Work σ (List Double) := fun s =>
  match text with
  | .text t =>
    match Backoff.standard.retry Fault.isTransient s.draw (embedder.embedText s.service t)
        Backoff.callLimit s.serviceState with
    | some r => (r.outcome, { s with serviceState := r.state })
    | none => (.error (.service .timedOut), s)
  | v => (.error (.data (.lacks v.typeName "encode")), s)

/-- The records of a collection that are nearest to a text, the best first. -/
def query (store : VectorStore) (collection text topK : Value) :
    Work σ (List Record) := do
  match store.embedder with
  | none => Action.fail .noEmbedder
  | some embedder =>
    let vector ← embedQuery embedder text
    let hits ← onServer (VectorStore.search collection vector topK)
    return hits.map Prod.snd

/-- Queries a collection; a store that is not given and a number of records that is `null` come
from the settings. -/
def askCollection (settings : Value) (store : Option VectorStore) (collection : Value)
    (text topK : Value) : Work σ (List Record) := do
  let store ← match store with
    | some store => pure store
    | none => do
      let embedder ← setUpEmbedder settings {}
      setUpStore settings (some embedder)
  let topK ← match topK with
    | .null => Action.ofOutcome (.ofData (Settings.topK settings))
    | v => pure v
  query store collection text topK

end Surroundings

end CodeCatalog
