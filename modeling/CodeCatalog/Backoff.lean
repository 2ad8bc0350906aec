import CodeCatalog.Double
set_option autoImplicit false

/-!
# Backoff

Calls that may fail for a while are tried again.  After the `n`th failed call the wait is
`initialDelay * multiplier ^ (n - 1)`, but never more than `maxDelay`, and a share of
`jitter` on top.  No further call is made once `maxElapsed` has gone by since the start.

Times are of any type with the operations of `Span`, so that a policy can be run on
floating-point numbers and studied on exact ones.
-/

namespace CodeCatalog

/-- What lengths of time can do. -/
class Span (κ : Type) where
  zero : κ
  add : κ → κ → κ
  mul : κ → κ → κ
  /-- A power with a natural exponent, if it can be represented. -/
  pow? : κ → Nat → Option κ
  /-- Whether a length that starts at the first and grows by the second as a factor has reached
  the third after a number of steps, as far as that can be told without the power. -/
  reaches : κ → κ → κ → Nat → Bool
  lt : κ → κ → Bool
  le : κ → κ → Bool

instance : Span Double where
  zero := Double.zero
  add := Double.add
  mul := Double.mul
  pow? := Double.pow?
  reaches := Double.reaches
  lt := Double.lt
  le := Double.le

/-- A backoff policy. -/
structure Backoff (κ : Type) where
  initialDelay : κ
  multiplier : κ
  maxDelay : κ
  maxElapsed : κ
  jitter : κ
  deriving DecidableEq, Repr

namespace Backoff

variable {κ : Type} [Span κ]

/-- The wait after a failed call, without the jitter: the exponential delay between zero and
the greatest delay, and the greatest delay where that is reached or the power is out of
range. -/
def exponential (p : Backoff κ) (attempt : Nat) : κ :=
  if Span.reaches p.initialDelay p.multiplier p.maxDelay (attempt - 1) then p.maxDelay
  else
    match Span.pow? p.multiplier (attempt - 1) with
    | none => p.maxDelay
    | some factor =>
      let delay := Span.mul p.initialDelay factor
      let capped := if Span.lt p.maxDelay delay then p.maxDelay else delay
      if Span.lt Span.zero capped then capped else Span.zero

/-- The wait after a failed call; `draw` is the drawn share of the jitter. -/
def wait (p : Backoff κ) (draw : κ) (attempt : Nat) : κ :=
  Span.add (Span.add Span.zero (p.exponential attempt))
    (Span.add Span.zero (Span.mul p.jitter draw))

/-- What follows a failed call that may succeed later. -/
inductive Verdict (κ : Type) where
  | giveUp
  | retryAfter (wait : κ)

/-- Gives up once the budget is used up, and otherwise waits. -/
def verdict (p : Backoff κ) (draw : κ) (attempt : Nat) (elapsed : κ) : Verdict κ :=
  if Span.le p.maxElapsed elapsed then .giveUp else .retryAfter (p.wait draw attempt)

end Backoff

/-- What one call did: the state it left, the time it took, and its outcome. -/
structure Called (σ κ ε α : Type) where
  state : σ
  takes : κ
  outcome : Except ε α

/-- What the calls of a retried operation came to: the number of calls, the waits between
them, the time that went by, the state left and the outcome of the last call. -/
structure Retried (σ κ ε α : Type) where
  calls : Nat
  waits : List κ
  elapsed : κ
  state : σ
  outcome : Except ε α

namespace Retried

variable {σ κ ε α : Type}

/-- The account of a run that made one more call, and waited, before. -/
def after (wait : κ) (r : Retried σ κ ε α) : Retried σ κ ε α :=
  { r with calls := r.calls + 1, waits := wait :: r.waits }

end Retried

namespace Backoff

variable {σ κ ε α : Type} [Span κ]

/-- Retries an operation from its `attempt`th call on, `now` being the time since the start;
nothing if it does not end within `limit` calls.  The operation is given the time at which
it is called, and `draws` are the shares of the jitter drawn after the calls. -/
def retryFrom (p : Backoff κ) (isTransient : ε → Bool) (draws : Nat → κ)
    (operation : κ → σ → Called σ κ ε α) :
    (limit attempt : Nat) → (now : κ) → σ → Option (Retried σ κ ε α)
  | 0, _, _, _ => none
  | limit + 1, attempt, now, state =>
    let call := operation now state
    let elapsed := Span.add now call.takes
    let ended : Retried σ κ ε α := ⟨1, [], elapsed, call.state, call.outcome⟩
    match call.outcome with
    | .ok _ => some ended
    | .error e =>
      if isTransient e then
        match p.verdict (draws attempt) attempt elapsed with
        | .giveUp => some ended
        | .retryAfter wait =>
          (retryFrom p isTransient draws operation limit (attempt + 1) (Span.add elapsed wait)
            call.state).map (Retried.after wait)
      else some ended

/-- Retries an operation with a share of the jitter drawn after each failed call; nothing if it
does not end within `limit` calls. -/
def retryDrawing (p : Backoff κ) (isTransient : ε → Bool) (draws : Nat → κ)
    (operation : κ → σ → Called σ κ ε α) (limit : Nat) (state : σ) :
    Option (Retried σ κ ε α) :=
  p.retryFrom isTransient draws operation limit 1 Span.zero state

/-- Retries an operation with the same share of the jitter after all calls; nothing if it does not
end within `limit` calls. -/
def retry (p : Backoff κ) (isTransient : ε → Bool) (draw : κ)
    (operation : κ → σ → Called σ κ ε α) (limit : Nat) (state : σ) :
    Option (Retried σ κ ε α) :=
  p.retryDrawing isTransient (fun _ => draw) operation limit state

/-- The policy for requests whose settings name no other one. -/
def standard : Backoff Double where
  initialDelay := Double.ofDecimal false 5 (-1)
  multiplier := Double.ofDecimal false 15 (-1)
  maxDelay := Double.ofNat 60
  maxElapsed := Double.ofNat 120
  jitter := Double.ofDecimal false 5 (-1)

/-- A number of calls that no run of a policy in use exceeds: its waits are half a second or
longer, and its budget is given in seconds. -/
def callLimit : Nat := 1000000

end Backoff

end CodeCatalog
