import CodeCatalog.Backoff
set_option autoImplicit false

/-!
# Retried operations

A retried operation ends with the outcome of its last call.  How often it is called and with what
outcome depends on what the operation does and on nothing else: a greater limit changes nothing
about a run that ends, and whoever sees a part of the state that suffices for the outcomes sees
the same run.
-/

namespace CodeCatalog

variable {σ τ κ ε α : Type}

/-- A call as it looks to one who sees a part of the state. -/
def Called.mapState (see : σ → τ) (c : Called σ κ ε α) : Called τ κ ε α :=
  ⟨see c.state, c.takes, c.outcome⟩

/-- A run as it looks to one who sees a part of the state. -/
def Retried.mapState (see : σ → τ) (r : Retried σ κ ε α) : Retried τ κ ε α :=
  ⟨r.calls, r.waits, r.elapsed, see r.state, r.outcome⟩

namespace Backoff

variable [Span κ] {p : Backoff κ} {isTransient : ε → Bool} {draws : Nat → κ}
  {operation : κ → σ → Called σ κ ε α}

/-- The wait after which a call is made again; nothing if its outcome is the last. -/
def waitAfter? (p : Backoff κ) (isTransient : ε → Bool) (draw : κ) (attempt : Nat) (elapsed : κ) :
    Except ε α → Option κ
  | .ok _ => none
  | .error e =>
    if isTransient e then
      match p.verdict draw attempt elapsed with
      | .giveUp => none
      | .retryAfter wait => some wait
    else none

/-- A run makes one call, and goes on after a wait if there is one. -/
theorem retryFrom_succ (limit attempt : Nat) (now : κ) (state : σ) :
    p.retryFrom isTransient draws operation (limit + 1) attempt now state =
      let call := operation now state
      let elapsed := Span.add now call.takes
      match p.waitAfter? isTransient (draws attempt) attempt elapsed call.outcome with
      | none => some ⟨1, [], elapsed, call.state, call.outcome⟩
      | some wait =>
        (p.retryFrom isTransient draws operation limit (attempt + 1) (Span.add elapsed wait)
          call.state).map (Retried.after wait) := by
  rw [retryFrom]
  cases houtcome : (operation now state).outcome with
  | ok a => simp [waitAfter?, houtcome]
  | error e =>
    cases hverdict :
        p.verdict (draws attempt) attempt (Span.add now (operation now state).takes) <;>
      by_cases he : isTransient e = true <;> simp [waitAfter?, he, hverdict, houtcome]

section

variable {limit attempt : Nat} {now : κ} {state : σ} {r : Retried σ κ ε α}

/-- A run that ends ends with its first call, or it waits and goes on to the end. -/
theorem retryFrom_succ_eq_some :
    p.retryFrom isTransient draws operation (limit + 1) attempt now state = some r ↔
      (p.waitAfter? isTransient (draws attempt) attempt (Span.add now (operation now state).takes)
          (operation now state).outcome = none ∧
        r = ⟨1, [], Span.add now (operation now state).takes, (operation now state).state,
          (operation now state).outcome⟩) ∨
      ∃ wait rest,
        p.waitAfter? isTransient (draws attempt) attempt (Span.add now (operation now state).takes)
          (operation now state).outcome = some wait ∧
        p.retryFrom isTransient draws operation limit (attempt + 1)
          (Span.add (Span.add now (operation now state).takes) wait) (operation now state).state =
            some rest ∧
        r = rest.after wait := by
  rw [retryFrom_succ]
  dsimp only
  split
  · rename_i hwait
    simp [hwait, eq_comm]
  · rename_i wait hwait
    simp [hwait, eq_comm (a := r)]

/-- A run that ends within a limit is the run within any greater one. -/
theorem retryFrom_mono {limit' : Nat} (hlimit : limit ≤ limit')
    (h : p.retryFrom isTransient draws operation limit attempt now state = some r) :
    p.retryFrom isTransient draws operation limit' attempt now state = some r := by
  induction limit generalizing limit' attempt now state r with
  | zero => cases h
  | succ limit ih =>
    obtain ⟨limit', rfl⟩ := Nat.exists_eq_succ_of_ne_zero (n := limit') (by omega)
    refine retryFrom_succ_eq_some.2 ?_
    rcases retryFrom_succ_eq_some.1 h with hlast | ⟨wait, rest, hwait, hrest, hr⟩
    · exact .inl hlast
    · exact .inr ⟨wait, rest, hwait, ih (Nat.le_of_succ_le_succ hlimit) hrest, hr⟩

/-- What every call preserves a run preserves. -/
theorem retryFrom_preserves {P : σ → Prop}
    (hcall : ∀ now state, P state → P (operation now state).state)
    (h : p.retryFrom isTransient draws operation limit attempt now state = some r) (hp : P state) :
    P r.state := by
  induction limit generalizing attempt now state r with
  | zero => cases h
  | succ limit ih =>
    rcases retryFrom_succ_eq_some.1 h with ⟨_, rfl⟩ | ⟨wait, rest, _, hrest, rfl⟩
    · exact hcall now state hp
    · have hend : P rest.state := ih hrest (hcall now state hp)
      exact hend

/-- The outcome of a run is that of one of its calls. -/
theorem exists_call (h : p.retryFrom isTransient draws operation limit attempt now state = some r) :
    ∃ now state, (operation now state).outcome = r.outcome := by
  induction limit generalizing attempt now state r with
  | zero => cases h
  | succ limit ih =>
    rcases retryFrom_succ_eq_some.1 h with ⟨_, rfl⟩ | ⟨wait, rest, _, hrest, rfl⟩
    · exact ⟨now, state, rfl⟩
    · have hend : ∃ now state, (operation now state).outcome = rest.outcome := ih hrest
      exact hend

/-- A part of the state that suffices for the calls suffices for the run. -/
theorem retryFrom_mapState {see : σ → τ} {operation' : κ → τ → Called τ κ ε α}
    (hcall : ∀ now state, (operation now state).mapState see = operation' now (see state)) :
    (p.retryFrom isTransient draws operation limit attempt now state).map (Retried.mapState see) =
      p.retryFrom isTransient draws operation' limit attempt now (see state) := by
  induction limit generalizing attempt now state with
  | zero => rfl
  | succ limit ih =>
    rw [retryFrom_succ, retryFrom_succ, ← hcall]
    simp only [Called.mapState]
    split
    · rfl
    · rw [← ih, Option.map_map, Option.map_map]
      rfl

end

end Backoff

end CodeCatalog
