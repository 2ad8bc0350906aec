import CodeCatalog.Backoff
import CodeCatalog.Config
import CodeCatalog.Embedding.Service
import CodeCatalog.Embedding.Token
set_option autoImplicit false

/-!
# Embedders

An embedder turns texts into vectors by one request to an embedding service.  It cuts the
texts to what its model takes, and puts the vectors of the reply into the order of the
texts.
-/

namespace CodeCatalog

/-- A client of the embedding service as it was set up. -/
structure EmbeddingClient where
  blocking : Bool
  apiKey : Value
  baseUrl : Value
  timeout : Double

/-- What an embedder needs to know of its model. -/
structure Embedder where
  model : Value
  dimension : Int
  maxTokens : Int
  apiKey : Value
  baseUrl : Value
  timeout : Double

namespace Embedder

/-- Settings that are given for one call and win over the others; empty ones do not count. -/
structure Given where
  model : Value := .null
  apiKey : Value := .null
  baseUrl : Value := .null

/-- The embedder of the settings.  Without a key there is none. -/
def ofSettings (settings : Value) (given : Given) : Outcome Embedder := do
  let part ← Outcome.ofData (Settings.part settings "embedding")
  let key := given.apiKey.orElse (← Outcome.ofData (part.member "api_key"))
  if !key.isPresent then throw .noCredentials
  let model ← Outcome.ofData (part.member "model")
  let baseUrl ← Outcome.ofData (part.member "api_base")
  let dimension ← Outcome.ofData do
    ((← part.member? "dimension").getD (.int Settings.defaultDimension)).toInteger
  let maxTokens ← Outcome.ofData do
    ((← part.member? "max_input_tokens").getD (.int 8191)).toInteger
  let timeout ← Outcome.ofData do
    ((← part.member? "timeout").getD (.float (Double.ofNat 60))).toDouble
  return {
    model := (given.model.orElse model).orElse (.text Settings.defaultModel)
    apiKey := key
    baseUrl := given.baseUrl.orElse baseUrl
    dimension, maxTokens, timeout }

/-- The clients that an embedder sets up: one that blocks and one that does not. -/
def clients (e : Embedder) : List EmbeddingClient :=
  [⟨true, e.apiKey, e.baseUrl, e.timeout⟩, ⟨false, e.apiKey, e.baseUrl, e.timeout⟩]

/-- Cuts a text to what the model takes. -/
def prepareText (e : Embedder) (t : Text) : Except DataFault Text :=
  Text.cutToTokens e.maxTokens e.model t

/-- Cuts texts to what the model takes. -/
def prepare (e : Embedder) (texts : List Text) : Except DataFault (List Text) :=
  texts.mapM e.prepareText

/-- Cuts values to what the model takes; each of them has to be a text. -/
def prepareValues (e : Embedder) (vs : List Value) : Except DataFault (List Text) :=
  vs.mapM fun
    | .text t => e.prepareText t
    | v => .error (.lacks v.typeName "encode")

/-- The vectors of a reply in the order of the texts, of which there have to be as many. -/
def vectors (expected : Nat) (items : List ReplyItem) : Outcome (List (List Double)) :=
  if items.length = expected then
    .ok ((items.mergeSort fun a b => a.index ≤ b.index).map ReplyItem.vector)
  else .error (.wrongCount expected items.length)

variable {σ κ : Type} [Span κ]

/-- Makes one request at a time `now` for prepared texts, if they could be prepared. -/
def request (e : Embedder) (service : Endpoint σ κ) (prepared : Except DataFault (List Text))
    (now : κ) (state : σ) : Called σ κ Fault (List (List Double)) :=
  match prepared with
  | .error f => ⟨state, Span.zero, .error (.data f)⟩
  | .ok texts =>
    let r := service.send state now e.model texts
    ⟨r.state, r.takes,
      match r.reply with
      | .error f => .error (.service f)
      | .ok items => vectors texts.length items⟩

/-- Embeds texts by one request at a time `now`; no request is made for no texts. -/
def embed (e : Embedder) (service : Endpoint σ κ) (texts : List Text) (now : κ) (state : σ) :
    Called σ κ Fault (List (List Double)) :=
  if texts.isEmpty then ⟨state, Span.zero, .ok []⟩
  else e.request service (e.prepare texts) now state

/-- Embeds the elements of a value by one request; no request is made for an absent one. -/
def embedValue (e : Embedder) (service : Endpoint σ κ) (v : Value) (now : κ) (state : σ) :
    Called σ κ Fault (List (List Double)) :=
  if !v.isPresent then ⟨state, Span.zero, .ok []⟩
  else e.request service (v.elements >>= e.prepareValues) now state

/-- Embeds one text. -/
def embedText (e : Embedder) (service : Endpoint σ κ) (text : Text) (now : κ) (state : σ) :
    Called σ κ Fault (List Double) :=
  let r := e.embed service [text] now state
  ⟨r.state, r.takes, r.outcome.map fun vs => vs.headD []⟩

end Embedder

namespace Backoff

/-- The policy of the settings: they can name the budget. -/
def ofSettings (settings : Value) : Except DataFault (Backoff Double) := do
  match ← (← Settings.part settings "embedding").member "max_retry_seconds" with
  | .null => return standard
  | v => return { standard with maxElapsed := ← v.toDouble }

end Backoff

end CodeCatalog
