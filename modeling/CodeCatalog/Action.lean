import CodeCatalog.Fault
set_option autoImplicit false

/-!
# Actions

An action on a state gives a result or a fault, and the state after it in either case: what
an action did before it failed stays done.
-/

namespace CodeCatalog

/-- An action on states of type `σ`. -/
def Action (σ α : Type) := σ → Outcome α × σ

namespace Action

variable {σ τ α β : Type}

/-- Gives a result and leaves the state alone. -/
def pure (a : α) : Action σ α := fun s => (.ok a, s)

/-- Goes on with the result of an action; a fault ends it. -/
def bind (x : Action σ α) (f : α → Action σ β) : Action σ β := fun s =>
  match x s with
  | (.ok a, s') => f a s'
  | (.error e, s') => (.error e, s')

instance : Monad (Action σ) where
  pure := Action.pure
  bind := Action.bind

/-- Fails and leaves the state alone. -/
def fail (e : Fault) : Action σ α := fun s => (.error e, s)

/-- A result or a fault that needs no state. -/
def ofOutcome (r : Outcome α) : Action σ α := fun s => (r, s)

/-- The state. -/
def get : Action σ σ := fun s => (.ok s, s)

/-- Changes the state. -/
def modify (f : σ → σ) : Action σ Unit := fun s => (.ok (), f s)

/-- An action on a part of the state. -/
def onPart (part : τ → σ) (put : σ → τ → τ) (x : Action σ α) : Action τ α := fun t =>
  let r := x (part t)
  (r.1, put r.2 t)

end Action

end CodeCatalog
