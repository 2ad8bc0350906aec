import CodeCatalog.Fault
import CodeCatalog.Value.Key
set_option autoImplicit false

/-!
# The embedding service

What stands between the catalog and whoever computes embeddings.  An endpoint answers a
request, which holds one or more texts, with numbered vectors, or fails; both take time.

`ScriptedService` is an endpoint in memory.  Any value that can be a key names a model.  Its
vectors depend on the length of the text alone, it can be told which requests fail, and it keeps
a ledger of what it was asked.
-/

namespace CodeCatalog

/-- One vector of a reply, with the number of the text it belongs to. -/
structure ReplyItem where
  index : Nat
  vector : List Double
  deriving DecidableEq, Repr

/-- What a request did: the state of the service after it, the time it took, and the reply. -/
structure Response (σ κ : Type) where
  state : σ
  takes : κ
  reply : Except ServiceFault (List ReplyItem)

/-- A service that answers requests; `send state now model texts` is the response to a request
at a time. -/
structure Endpoint (σ κ : Type) where
  send : σ → κ → Value → List Text → Response σ κ

/-- A scripted service with its ledger. -/
structure ScriptedService where
  dimension : Nat := 4
  /-- The reply names the texts in reverse. -/
  reversed : Bool := false
  /-- The number of items that a reply leaves out at its end. -/
  dropped : Nat := 0
  takes : Double := Double.zero
  /-- For each text the faults of its first requests that are answered at all. -/
  failures : List (Text × List ServiceFault) := []
  /-- The texts that always fail. -/
  broken : List (Text × ServiceFault) := []
  requests : Nat := 0
  texts : List (Text × Nat) := []
  models : List (Key × Value) := []

namespace ScriptedService

/-- The repeated components of a vector; the second tells the length of the text. -/
def component (t : Text) (i : Nat) : Double :=
  match i % 4 with
  | 0 => Double.one
  | 1 => Double.ofNat (t.length % 7 + 1)
  | 2 => Double.ofDecimal false 5 (-1)
  | _ => Double.ofDecimal false 25 (-2)

/-- The vector of a text. -/
def vector (dimension : Nat) (t : Text) : List Double :=
  (List.range dimension).map (component t)

/-- Adds one to the count of a text. -/
def count (t : Text) : List (Text × Nat) → List (Text × Nat)
  | [] => [(t, 1)]
  | m :: rest => if m.1 = t then (t, m.2 + 1) :: rest else m :: count t rest

/-- Takes the next fault of a text, if it has one. -/
def nextFailure (t : Text) :
    List (Text × List ServiceFault) → Option ServiceFault × List (Text × List ServiceFault)
  | [] => (none, [])
  | (u, faults) :: rest =>
    if u = t then
      match faults with
      | [] => (none, (u, []) :: rest)
      | f :: more => (some f, (u, more) :: rest)
    else
      let r := nextFailure t rest
      (r.1, (u, faults) :: r.2)

/-- Goes through the texts of a request up to the first that fails. -/
def firstFault (broken : List (Text × ServiceFault)) (failures : List (Text × List ServiceFault)) :
    List Text → Option ServiceFault × List (Text × List ServiceFault)
  | [] => (none, failures)
  | t :: rest =>
    match broken.lookup t with
    | some f => (some f, failures)
    | none =>
      match nextFailure t failures with
      | (some f, left) => (some f, left)
      | (none, left) => firstFault broken left rest

/-- The number of items of a reply to `n` texts.  When more are left out than there are, the
excess is taken from the front part once more. -/
def kept (dropped n : Nat) : Nat := if dropped ≤ n then n - dropped else 2 * n - dropped

/-- The items of a reply. -/
def items (s : ScriptedService) (texts : List Text) : List ReplyItem :=
  let all := texts.zipIdx.map fun t => (⟨t.2, vector s.dimension t.1⟩ : ReplyItem)
  (if s.reversed then all.reverse else all).take (kept s.dropped texts.length)

/-- Enters the model and the texts of a request into the ledger. -/
def enter (s : ScriptedService) (key : Key) (model : Value) (texts : List Text) :
    ScriptedService :=
  { s with
    models := if s.models.any fun m => m.1 == key then s.models else s.models ++ [(key, model)]
    texts := texts.foldl (fun counts t => count t counts) s.texts }

/-- Answers a request.  It is counted even if it names no model. -/
def send (s : ScriptedService) (model : Value) (texts : List Text) :
    Response ScriptedService Double :=
  let s := { s with requests := s.requests + 1 }
  match model.key with
  | .error _ => ⟨s, Double.zero, .error (.noModel model.typeName)⟩
  | .ok key =>
    let r := firstFault s.broken s.failures texts
    let after := { s.enter key model texts with failures := r.2 }
    match r.1 with
    | some f => ⟨after, s.takes, .error f⟩
    | none => ⟨after, s.takes, .ok (s.items texts)⟩

/-- The service as an endpoint; it does not look at the time. -/
def endpoint : Endpoint ScriptedService Double := ⟨fun s _ model texts => s.send model texts⟩

end ScriptedService

end CodeCatalog
