import Mathlib.Algebra.Order.BigOperators.Group.List
import Mathlib.Algebra.Order.Ring.Rat
import Mathlib.Order.Bounds.Basic
import Mathlib.Tactic.Linarith
import CodeCatalog.Proofs.Backoff
set_option autoImplicit false

/-!
# The budget of a retried operation

Where times are exact, a wait is never longer than the greatest delay and the jitter.  An operation
is called until a call succeeds, fails for good, or fails when the budget is used up.  The budget is
looked at after each call and before the wait, so only the last wait and the last call can go beyond
it.
-/

namespace CodeCatalog

variable {κ ε α : Type}

/-! ## Exact times -/

/-- Times that are added, multiplied and compared without rounding. -/
instance Span.exact [Semiring κ] [LinearOrder κ] : Span κ where
  zero := 0
  add := (· + ·)
  mul := (· * ·)
  pow? factor n := some (factor ^ n)
  reaches start factor limit n := decide (limit ≤ start * factor ^ n)
  lt a b := decide (a < b)
  le a b := decide (a ≤ b)

namespace Backoff

section Waits

variable [Semiring κ] [LinearOrder κ] {p : Backoff κ}

/-- The delay is the exponential one between zero and the greatest delay. -/
theorem exponential_eq (hmax : 0 ≤ p.maxDelay) (attempt : Nat) :
    p.exponential attempt =
      max 0 (min p.maxDelay (p.initialDelay * p.multiplier ^ (attempt - 1))) := by
  simp only [exponential, Span.reaches, Span.pow?, Span.mul, Span.lt, Span.zero,
    decide_eq_true_eq]
  split
  · rename_i hreached
    rw [min_eq_left hreached, max_eq_right hmax]
  · rename_i hbelow
    have hle := le_of_lt (not_le.1 hbelow)
    rw [if_neg (not_lt.2 hle), min_eq_right hle]
    split
    · rename_i hpos
      rw [max_eq_right (le_of_lt hpos)]
    · rename_i hneg
      rw [max_eq_left (not_lt.1 hneg)]

theorem wait_eq (draw : κ) (attempt : Nat) :
    p.wait draw attempt = p.exponential attempt + p.jitter * draw := by
  simp [wait, Span.add, Span.mul, Span.zero]

variable [IsStrictOrderedRing κ]

/-- A wait is never longer than the greatest delay and the jitter. -/
theorem wait_le (hmax : 0 ≤ p.maxDelay) (hjitter : 0 ≤ p.jitter) {draw : κ} (hdraw : draw ≤ 1)
    (attempt : Nat) : p.wait draw attempt ≤ p.maxDelay + p.jitter := by
  have hdelay : p.exponential attempt ≤ p.maxDelay := by
    rw [exponential_eq hmax]
    exact max_le hmax (min_le_left _ _)
  rw [wait_eq]
  exact add_le_add hdelay (mul_le_of_le_one_right hjitter hdraw)

end Waits

end Backoff

/-! ## Scripts -/

/-- An operation that plays a script, retried under a policy: how long its calls take, how they come
out, and the shares of the jitter drawn after them. -/
structure Trial (κ ε α : Type) where
  policy : Backoff κ
  isTransient : ε → Bool
  draws : Nat → κ
  takes : Nat → κ
  outcome : Nat → Except ε α

namespace Trial

variable [Semiring κ] [LinearOrder κ] (t : Trial κ ε α)

/-- The next call; the state is the number of calls made. -/
def call (_now : κ) (made : Nat) : Called Nat κ ε α := ⟨made + 1, t.takes made, t.outcome made⟩

/-- The run of a trial; nothing if it does not end within `limit` calls. -/
def run (limit : Nat) : Option (Retried Nat κ ε α) :=
  t.policy.retryDrawing t.isTransient t.draws t.call limit 0

/-- The wait behind a call; calls count from zero. -/
def pause (n : Nat) : κ := t.policy.wait (t.draws (n + 1)) (n + 1)

/-- The time at which a call starts: all calls before it were made and waited for. -/
def start (n : Nat) : κ := ((List.range n).map fun k => t.takes k + t.pause k).sum

/-- The time that has gone by after a call. -/
def elapsed (n : Nat) : κ := t.start n + t.takes n

/-- A call is the last one: it succeeds, it fails for good, or it fails when the budget is used
up. -/
inductive EndsAt (n : Nat) : Prop
  | succeeded {a : α} (h : t.outcome n = .ok a)
  | permanent {e : ε} (h : t.outcome n = .error e) (hpermanent : t.isTransient e = false)
  | exhausted {e : ε} (h : t.outcome n = .error e) (htransient : t.isTransient e = true)
    (hbudget : t.policy.maxElapsed ≤ t.elapsed n)

variable {t}

theorem start_succ (n : Nat) : t.start (n + 1) = t.elapsed n + t.pause n := by
  simp [start, elapsed, List.range_succ, add_assoc]

/-- A call is the last one, or it is waited for within the budget. -/
theorem endsAt_cases (n : Nat) :
    (t.EndsAt n ∧ t.policy.waitAfter? t.isTransient (t.draws (n + 1)) (n + 1) (t.elapsed n)
        (t.outcome n) = none) ∨
      (¬ t.EndsAt n ∧ t.elapsed n < t.policy.maxElapsed ∧
        t.policy.waitAfter? t.isTransient (t.draws (n + 1)) (n + 1) (t.elapsed n) (t.outcome n) =
          some (t.pause n)) := by
  cases houtcome : t.outcome n with
  | ok a => exact .inl ⟨.succeeded houtcome, rfl⟩
  | error e =>
    cases htransient : t.isTransient e with
    | false =>
      refine .inl ⟨.permanent houtcome htransient, ?_⟩
      simp [Backoff.waitAfter?, htransient]
    | true =>
      by_cases hbudget : t.policy.maxElapsed ≤ t.elapsed n
      · refine .inl ⟨.exhausted houtcome htransient hbudget, ?_⟩
        simp [Backoff.waitAfter?, Backoff.verdict, htransient, Span.le, hbudget]
      · refine .inr ⟨fun hends => ?_, not_le.1 hbudget, ?_⟩
        · cases hends with
          | succeeded h => simp [houtcome] at h
          | permanent h hpermanent =>
            obtain rfl := Except.error.inj (houtcome.symm.trans h)
            simp [htransient] at hpermanent
          | exhausted _ _ h => exact hbudget h
        · simp [Backoff.waitAfter?, Backoff.verdict, htransient, Span.le, hbudget, pause]

/-! ## Runs -/

/-- What the run from a call on comes to if it ends with a later one. -/
def account (t : Trial κ ε α) (n last : Nat) : Retried Nat κ ε α where
  calls := last + 1 - n
  waits := (List.range' n (last - n)).map t.pause
  elapsed := t.elapsed last
  state := last + 1
  outcome := t.outcome last

theorem account_self (n : Nat) :
    t.account n n = ⟨1, [], t.elapsed n, n + 1, t.outcome n⟩ := by
  simp [account]

theorem account_of_lt {n last : Nat} (h : n < last) :
    t.account n last = (t.account (n + 1) last).after (t.pause n) := by
  have hcalls : last + 1 - n = last + 1 - (n + 1) + 1 := by omega
  have hwaits : last - n = last - (n + 1) + 1 := by omega
  simp only [account, Retried.after, hcalls]
  rw [hwaits, List.range'_succ, List.map_cons]

section Steps

variable {limit n : Nat} {r : Retried Nat κ ε α}

/-- A run ends with a last call. -/
theorem retryFrom_of_endsAt (h : t.EndsAt n) :
    t.policy.retryFrom t.isTransient t.draws t.call (limit + 1) (n + 1) (t.start n) n =
      some (t.account n n) := by
  rcases t.endsAt_cases n with ⟨-, hwait⟩ | ⟨hgoes, -, -⟩
  · exact Backoff.retryFrom_succ_eq_some.2 (.inl ⟨hwait, account_self n⟩)
  · exact absurd h hgoes

/-- A run goes on behind any other call, after a wait. -/
theorem retryFrom_of_not_endsAt (h : ¬ t.EndsAt n) :
    t.policy.retryFrom t.isTransient t.draws t.call (limit + 1) (n + 1) (t.start n) n = some r ↔
      ∃ rest, t.policy.retryFrom t.isTransient t.draws t.call limit (n + 1 + 1) (t.start (n + 1))
        (n + 1) = some rest ∧ r = rest.after (t.pause n) := by
  have helapsed : Span.add (t.start n) (t.call (t.start n) n).takes = t.elapsed n := rfl
  have houtcome : (t.call (t.start n) n).outcome = t.outcome n := rfl
  have hnext : t.start (n + 1) = Span.add (t.elapsed n) (t.pause n) := start_succ n
  rcases t.endsAt_cases n with ⟨hends, -⟩ | ⟨-, -, hwait⟩
  · exact absurd hends h
  · rw [Backoff.retryFrom_succ_eq_some, helapsed, houtcome, hwait, hnext]
    constructor
    · rintro (⟨hnone, -⟩ | ⟨wait, rest, hsome, hrest, hr⟩)
      · cases hnone
      · obtain rfl := Option.some.inj hsome
        exact ⟨rest, hrest, hr⟩
    · rintro ⟨rest, hrest, hr⟩
      exact .inr ⟨t.pause n, rest, rfl, hrest, hr⟩

end Steps

/-- The calls from one on that may be the last one. -/
def endsFrom (t : Trial κ ε α) (n : Nat) : Set Nat := {k | n ≤ k ∧ t.EndsAt k}

theorem endsFrom_of_not_endsAt {n : Nat} (h : ¬ t.EndsAt n) :
    t.endsFrom n = t.endsFrom (n + 1) := by
  ext k
  constructor
  · rintro ⟨hle, hends⟩
    have hne : n ≠ k := fun heq => h (heq ▸ hends)
    exact ⟨by omega, hends⟩
  · rintro ⟨hle, hends⟩
    exact ⟨by omega, hends⟩

/-- The run from a call on ends with the first call from there on that is a last one. -/
theorem retryFrom_eq_some_iff {limit n : Nat} {r : Retried Nat κ ε α} :
    t.policy.retryFrom t.isTransient t.draws t.call limit (n + 1) (t.start n) n = some r ↔
      ∃ last, IsLeast (t.endsFrom n) last ∧ last < n + limit ∧ r = t.account n last := by
  induction limit generalizing n r with
  | zero =>
    constructor
    · intro h
      cases h
    · rintro ⟨last, hleast, hlt, -⟩
      have hle : n ≤ last := hleast.1.1
      omega
  | succ limit ih =>
    by_cases hends : t.EndsAt n
    · have hself : IsLeast (t.endsFrom n) n := ⟨⟨Nat.le_refl n, hends⟩, fun k hk => hk.1⟩
      rw [retryFrom_of_endsAt hends, Option.some.injEq]
      constructor
      · rintro rfl
        exact ⟨n, hself, by omega, rfl⟩
      · rintro ⟨last, hleast, -, rfl⟩
        rw [hleast.unique hself]
    · rw [retryFrom_of_not_endsAt hends, endsFrom_of_not_endsAt hends]
      constructor
      · rintro ⟨rest, hrest, rfl⟩
        obtain ⟨last, hleast, hlt, rfl⟩ := ih.1 hrest
        exact ⟨last, hleast, by omega, (account_of_lt hleast.1.1).symm⟩
      · rintro ⟨last, hleast, hlt, rfl⟩
        exact ⟨t.account (n + 1) last, ih.2 ⟨last, hleast, by omega, rfl⟩,
          account_of_lt hleast.1.1⟩

/-- A run ends exactly if one of the calls within the limit is a last one, and then with the first
such call. -/
theorem run_eq_some_iff {limit : Nat} {r : Retried Nat κ ε α} :
    t.run limit = some r ↔
      ∃ last, IsLeast {n | t.EndsAt n} last ∧ last < limit ∧ r = t.account 0 last := by
  have hall : t.endsFrom 0 = {n | t.EndsAt n} := by
    ext k
    exact and_iff_right (Nat.zero_le k)
  have hrun : t.run limit = some r ↔ ∃ last, IsLeast (t.endsFrom 0) last ∧ last < 0 + limit ∧
      r = t.account 0 last := retryFrom_eq_some_iff
  rwa [hall, Nat.zero_add] at hrun

theorem waits_account (last : Nat) :
    (t.account 0 last).waits = (List.range last).map t.pause := by
  simp only [account, Nat.sub_zero, List.range_eq_range']

/-- The time that has gone by is that of the calls and the waits between them. -/
theorem elapsed_account (last : Nat) :
    (t.account 0 last).elapsed =
      ((List.range (last + 1)).map t.takes).sum + (t.account 0 last).waits.sum := by
  have hwaits : (t.account 0 last).waits = (List.range last).map t.pause := waits_account last
  rw [hwaits, List.range_succ, List.map_append, List.sum_append, List.map_singleton,
    List.sum_singleton, add_right_comm, ← List.sum_map_add]
  rfl

/-- Before the last call the budget is not used up. -/
theorem elapsed_lt_of_not_endsAt {n : Nat} (h : ¬ t.EndsAt n) :
    t.elapsed n < t.policy.maxElapsed := by
  rcases t.endsAt_cases n with ⟨hends, -⟩ | ⟨-, hbudget, -⟩
  · exact absurd hends h
  · exact hbudget

section Policy

variable [IsStrictOrderedRing κ] (hmax : 0 ≤ t.policy.maxDelay) (hjitter : 0 ≤ t.policy.jitter)
  (hdraws : ∀ n, t.draws n ≤ 1)

include hmax hjitter hdraws

theorem pause_le (n : Nat) : t.pause n ≤ t.policy.maxDelay + t.policy.jitter :=
  Backoff.wait_le hmax hjitter (hdraws (n + 1)) (n + 1)

/-- A call behind one that is not the last overdraws the budget by less than one wait and itself. -/
theorem elapsed_succ_lt {n : Nat} (h : ¬ t.EndsAt n) :
    t.elapsed (n + 1) <
      t.policy.maxElapsed + t.policy.maxDelay + t.policy.jitter + t.takes (n + 1) := by
  have hbudget := elapsed_lt_of_not_endsAt h
  have hpause := t.pause_le hmax hjitter hdraws n
  calc t.elapsed (n + 1) = t.elapsed n + t.pause n + t.takes (n + 1) := by
        rw [elapsed, start_succ]
    _ < t.policy.maxElapsed + (t.policy.maxDelay + t.policy.jitter) + t.takes (n + 1) :=
        add_lt_add_left (add_lt_add_of_lt_of_le hbudget hpause) _
    _ = t.policy.maxElapsed + t.policy.maxDelay + t.policy.jitter + t.takes (n + 1) := by
        rw [add_assoc t.policy.maxElapsed t.policy.maxDelay]

/-- A run that ends has made the calls up to the first last one and no other, and has waited once
between two of them, never longer than the greatest delay and the jitter.  It ends with the outcome
of that call, and has overdrawn the budget by less than one wait and that call. -/
theorem run_within_budget {limit : Nat} {r : Retried Nat κ ε α} (h : t.run limit = some r) :
    ∃ last, IsLeast {n | t.EndsAt n} last ∧ r.calls = last + 1 ∧ r.state = last + 1 ∧
      r.outcome = t.outcome last ∧
      r.waits = (List.range last).map t.pause ∧
      (∀ wait ∈ r.waits, wait ≤ t.policy.maxDelay + t.policy.jitter) ∧
      r.elapsed = ((List.range (last + 1)).map t.takes).sum + r.waits.sum ∧
      (r.waits ≠ [] → r.elapsed <
        t.policy.maxElapsed + t.policy.maxDelay + t.policy.jitter + t.takes last) := by
  obtain ⟨last, hleast, -, rfl⟩ := run_eq_some_iff.1 h
  have hwaits := t.waits_account last
  refine ⟨last, hleast, rfl, rfl, rfl, hwaits, ?_, elapsed_account last, ?_⟩
  · intro wait hwait
    rw [hwaits] at hwait
    obtain ⟨n, -, rfl⟩ := List.mem_map.1 hwait
    exact t.pause_le hmax hjitter hdraws n
  · intro hne
    cases last with
    | zero => exact absurd hwaits hne
    | succ n =>
      have hgoes : ¬ t.EndsAt n := fun hends => Nat.not_succ_le_self n (hleast.2 hends)
      exact t.elapsed_succ_lt hmax hjitter hdraws hgoes

end Policy

/-- A service that is busy all the time, and slower with each call. -/
def busy : Trial ℚ String Unit where
  policy := ⟨1 / 2, 3 / 2, 60, 4, 1 / 2⟩
  isTransient e := e == "busy"
  draws n := 1 / (n + 1)
  takes n := n + 1
  outcome _ := .error "busy"

/-- The third call ends beyond the budget. -/
theorem exists_run_busy : ∃ r, busy.run 10 = some r ∧ r.calls = 3 ∧ r.elapsed = 23 / 3 := by
  have hrun : (busy.run 10).map (fun r => (r.calls, r.elapsed)) = some (3, 23 / 3) := by
    decide +kernel
  obtain ⟨r, hr, hends⟩ := Option.map_eq_some_iff.1 hrun
  exact ⟨r, hr, congrArg Prod.fst hends, congrArg Prod.snd hends⟩

theorem run_within_budget_busy :
    0 ≤ busy.policy.maxDelay ∧ 0 ≤ busy.policy.jitter ∧ (∀ n, busy.draws n ≤ 1) ∧
      ∃ r, busy.run 10 = some r ∧ r.calls = 3 ∧ r.elapsed = 23 / 3 ∧
        ∃ last, IsLeast {n | busy.EndsAt n} last ∧ r.calls = last + 1 ∧ r.state = last + 1 ∧
          r.outcome = busy.outcome last ∧
          r.waits = (List.range last).map busy.pause ∧
          (∀ wait ∈ r.waits, wait ≤ busy.policy.maxDelay + busy.policy.jitter) ∧
          r.elapsed = ((List.range (last + 1)).map busy.takes).sum + r.waits.sum ∧
          (r.waits ≠ [] → r.elapsed <
            busy.policy.maxElapsed + busy.policy.maxDelay + busy.policy.jitter +
              busy.takes last) := by
  have hmax : 0 ≤ busy.policy.maxDelay := by decide +kernel
  have hjitter : 0 ≤ busy.policy.jitter := by decide +kernel
  have hdraws : ∀ n, busy.draws n ≤ 1 := by
    intro n
    have hpos : (1 : ℚ) ≤ n + 1 := by
      have hcast : (0 : ℚ) ≤ n := Nat.cast_nonneg n
      linarith
    exact div_le_one_of_le₀ hpos (by linarith)
  obtain ⟨r, hrun, hcalls, helapsed⟩ := exists_run_busy
  exact ⟨hmax, hjitter, hdraws, r, hrun, hcalls, helapsed,
    run_within_budget hmax hjitter hdraws hrun⟩

end Trial

end CodeCatalog
