import Mathlib.Algebra.Order.Floor.Ring
import Mathlib.Data.Rat.Floor
import Mathlib.Order.Nat
import CodeCatalog.Embedding.Embedder
import CodeCatalog.Proofs.Backoff.Budget
import CodeCatalog.Proofs.Lists
set_option autoImplicit false

/-!
# Operations that never succeed

Where times are exact and waits grow, no wait is shorter than the first delay, or than the greatest
one if that is less.  So an operation each of whose calls fails for a while uses up any budget: it
is called at most once more often than that length goes into the budget, and the fault of its last
call is the outcome.
-/

namespace CodeCatalog

variable {σ κ ε α : Type}

/-! ## Waits that use up the budget -/

namespace Backoff

/-- A policy whose waits do not shrink to nothing. -/
structure Advances [Semiring κ] [LinearOrder κ] (p : Backoff κ) : Prop where
  initialDelay_pos : 0 < p.initialDelay
  maxDelay_pos : 0 < p.maxDelay
  one_le_multiplier : 1 ≤ p.multiplier
  jitter_nonneg : 0 ≤ p.jitter
  maxElapsed_nonneg : 0 ≤ p.maxElapsed

/-- The length that no wait falls short of. -/
def leastDelay [LinearOrder κ] (p : Backoff κ) : κ := min p.initialDelay p.maxDelay

section Waits

variable [Semiring κ] [LinearOrder κ] {p : Backoff κ}

theorem Advances.leastDelay_pos (h : p.Advances) : 0 < p.leastDelay :=
  lt_min h.initialDelay_pos h.maxDelay_pos

variable [IsStrictOrderedRing κ]

/-- The exponential delay starts with the first one and never falls. -/
theorem Advances.leastDelay_le_exponential (h : p.Advances) (attempt : Nat) :
    p.leastDelay ≤ p.exponential attempt := by
  have hgrows : p.initialDelay ≤ p.initialDelay * p.multiplier ^ (attempt - 1) :=
    le_mul_of_one_le_right h.initialDelay_pos.le (one_le_pow₀ h.one_le_multiplier)
  rw [exponential_eq h.maxDelay_pos.le]
  apply le_max_of_le_right
  apply le_min
  · exact min_le_right _ _
  · exact (min_le_left _ _).trans hgrows

theorem Advances.leastDelay_le_wait (h : p.Advances) {draw : κ} (hdraw : 0 ≤ draw)
    (attempt : Nat) : p.leastDelay ≤ p.wait draw attempt := by
  rw [wait_eq]
  exact le_add_of_le_of_nonneg (h.leastDelay_le_exponential attempt)
    (mul_nonneg h.jitter_nonneg hdraw)

end Waits

end Backoff

namespace Trial

variable {t : Trial κ ε α}

section Clock

variable [Semiring κ] [LinearOrder κ] [IsStrictOrderedRing κ]

/-- Between the starts of two calls there is at least one wait. -/
theorem mul_leastDelay_le_start (h : t.policy.Advances) (hdraws : ∀ n, 0 ≤ t.draws n)
    (htakes : ∀ n, 0 ≤ t.takes n) (n : Nat) : n * t.policy.leastDelay ≤ t.start n := by
  induction n with
  | zero => simp [start]
  | succ n ih =>
    have hwait : t.policy.leastDelay ≤ t.pause n :=
      h.leastDelay_le_wait (hdraws (n + 1)) (n + 1)
    calc ((n + 1 : Nat) : κ) * t.policy.leastDelay
        = n * t.policy.leastDelay + t.policy.leastDelay := by
          rw [Nat.cast_succ, add_mul, one_mul]
      _ ≤ (t.start n + t.takes n) + t.pause n :=
          add_le_add (le_add_of_le_of_nonneg ih (htakes n)) hwait
      _ = t.start (n + 1) := (start_succ n).symm

/-- Where all calls fail for a while, a call is the last one if the waits before it use up the
budget. -/
theorem endsAt_of_failing (h : t.policy.Advances) (hdraws : ∀ n, 0 ≤ t.draws n)
    (htakes : ∀ n, 0 ≤ t.takes n)
    (hfails : ∀ n, ∃ e, t.outcome n = .error e ∧ t.isTransient e = true) {n : Nat}
    (hbudget : t.policy.maxElapsed ≤ n * t.policy.leastDelay) : t.EndsAt n := by
  obtain ⟨e, houtcome, htransient⟩ := hfails n
  have hstart := mul_leastDelay_le_start h hdraws htakes n
  apply EndsAt.exhausted houtcome htransient
  exact hbudget.trans (le_add_of_le_of_nonneg hstart (htakes n))

end Clock

/-- Where all calls fail for a while, a run ends: with one of the calls that start before the waits
use up the budget, or the one behind them. -/
theorem exists_last_of_failing [DivisionRing κ] [LinearOrder κ] [IsStrictOrderedRing κ] [FloorSemiring κ]
    (h : t.policy.Advances) (hdraws : ∀ n, 0 ≤ t.draws n) (htakes : ∀ n, 0 ≤ t.takes n)
    (hfails : ∀ n, ∃ e, t.outcome n = .error e ∧ t.isTransient e = true) :
    ∃ last, last ≤ ⌈t.policy.maxElapsed / t.policy.leastDelay⌉₊ ∧
      ∀ limit, last < limit → t.run limit = some (t.account 0 last) := by
  have hpaid : t.policy.maxElapsed ≤
      ⌈t.policy.maxElapsed / t.policy.leastDelay⌉₊ * t.policy.leastDelay :=
    (div_le_iff₀ h.leastDelay_pos).1 (Nat.le_ceil _)
  have hends := endsAt_of_failing h hdraws htakes hfails hpaid
  classical
  obtain ⟨last, hleast⟩ : ∃ last, IsLeast {n | t.EndsAt n} last :=
    ⟨_, Nat.isLeast_find ⟨_, hends⟩⟩
  refine ⟨last, hleast.2 hends, ?_⟩
  intro limit hlimit
  exact run_eq_some_iff.2 ⟨last, hleast, hlimit, rfl⟩

end Trial

/-! ## Operations as trials -/

namespace Backoff

section

variable [Span κ]

/-- The time and the state in which an operation is called once it has failed a number of times. -/
def before (p : Backoff κ) (draws : Nat → κ) (operation : κ → σ → Called σ κ ε α) (state : σ) :
    Nat → κ × σ
  | 0 => (Span.zero, state)
  | n + 1 =>
    let last := p.before draws operation state n
    let call := operation last.1 last.2
    (Span.add (Span.add last.1 call.takes) (p.wait (draws (n + 1)) (n + 1)), call.state)

/-- A call of an operation, if it is ever made; calls count from zero. -/
def nthCall (p : Backoff κ) (draws : Nat → κ) (operation : κ → σ → Called σ κ ε α) (state : σ)
    (n : Nat) : Called σ κ ε α :=
  operation (p.before draws operation state n).1 (p.before draws operation state n).2

/-- A call that is made again is made after the wait of the policy. -/
theorem eq_wait_of_waitAfter? {p : Backoff κ} {isTransient : ε → Bool} {draw : κ} {attempt : Nat}
    {elapsed wait : κ} {outcome : Except ε α}
    (h : p.waitAfter? isTransient draw attempt elapsed outcome = some wait) :
    wait = p.wait draw attempt := by
  unfold waitAfter? verdict at h
  grind

end

variable [Semiring κ] [LinearOrder κ] (p : Backoff κ) (isTransient : ε → Bool) (draws : Nat → κ)
  (operation : κ → σ → Called σ κ ε α) (state : σ)

/-- The script that an operation plays under a policy. -/
def script : Trial κ ε α where
  policy := p
  isTransient := isTransient
  draws := draws
  takes n := (p.nthCall draws operation state n).takes
  outcome n := (p.nthCall draws operation state n).outcome

/-- An operation is retried as its script is, at every call. -/
theorem retryFrom_eq_script (limit n : Nat) :
    p.retryFrom isTransient draws operation limit (n + 1) (p.before draws operation state n).1
        (p.before draws operation state n).2 =
      ((p.script isTransient draws operation state).policy.retryFrom isTransient draws
          (p.script isTransient draws operation state).call limit (n + 1)
          (p.before draws operation state n).1 n).map
        (Retried.mapState fun made => (p.before draws operation state made).2) := by
  induction limit generalizing n with
  | zero => rfl
  | succ limit ih =>
    rw [retryFrom_succ, retryFrom_succ]
    dsimp only [script, Trial.call, nthCall]
    split
    · rfl
    · rename_i wait hwait
      obtain rfl := eq_wait_of_waitAfter? hwait
      change Option.map (Retried.after _)
        (p.retryFrom isTransient draws operation limit (n + 1 + 1)
          (p.before draws operation state (n + 1)).1 (p.before draws operation state (n + 1)).2) = _
      rw [ih (n + 1), Option.map_map, Option.map_map]
      rfl

theorem retryDrawing_eq_script (limit : Nat) :
    p.retryDrawing isTransient draws operation limit state =
      ((p.script isTransient draws operation state).run limit).map
        (Retried.mapState fun made => (p.before draws operation state made).2) :=
  p.retryFrom_eq_script isTransient draws operation state limit 0

end Backoff

/-! ## Policies of the settings -/

/-- The number that a double stands for, if it is finite. -/
def Double.rational? (x : Double) : Option ℚ :=
  if x.isFinite then
    let size : ℚ := x.significand * twoTo x.scale.toNat / twoTo (-x.scale).toNat
    some (if x.isNegative then -size else size)
  else none

namespace Backoff

/-- A policy in exact numbers, if all of them are finite. -/
def rational? (p : Backoff Double) : Option (Backoff ℚ) := do
  return ⟨← p.initialDelay.rational?, ← p.multiplier.rational?, ← p.maxDelay.rational?,
    ← p.maxElapsed.rational?, ← p.jitter.rational?⟩

/-- The settings can name the budget of a policy and nothing else. -/
theorem exists_budget_of_ofSettings {settings : Value} {p : Backoff Double}
    (h : ofSettings settings = .ok p) : ∃ budget, p = { standard with maxElapsed := budget } := by
  obtain ⟨part, -, hmember⟩ := bind_eq_ok.1 h
  obtain ⟨v, -, hpolicy⟩ := bind_eq_ok.1 hmember
  split at hpolicy
  · obtain rfl := Except.ok.inj hpolicy
    exact ⟨standard.maxElapsed, rfl⟩
  · obtain ⟨budget, -, hbudget⟩ := bind_eq_ok.1 hpolicy
    exact ⟨budget, (Except.ok.inj hbudget).symm⟩

theorem rational?_standard (budget : Double) :
    rational? { standard with maxElapsed := budget } =
      budget.rational?.map fun elapsed => ⟨1 / 2, 3 / 2, 60, elapsed, 1 / 2⟩ := by
  have hinitial : standard.initialDelay.rational? = some (1 / 2) := by decide +kernel
  have hmultiplier : standard.multiplier.rational? = some (3 / 2) := by decide +kernel
  have hmax : standard.maxDelay.rational? = some 60 := by decide +kernel
  have hjitter : standard.jitter.rational? = some (1 / 2) := by decide +kernel
  simp only [rational?, hinitial, hmultiplier, hmax, hjitter]
  cases budget.rational? <;> rfl

/-- The policies of the settings advance in exact numbers, if their budget is a number that is not
negative. -/
theorem exists_advances_of_ofSettings {settings : Value} {p : Backoff Double} {elapsed : ℚ}
    (h : ofSettings settings = .ok p) (hbudget : p.maxElapsed.rational? = some elapsed)
    (hnonneg : 0 ≤ elapsed) :
    ∃ q, p.rational? = some q ∧ q.maxElapsed = elapsed ∧ q.Advances := by
  obtain ⟨budget, rfl⟩ := exists_budget_of_ofSettings h
  refine ⟨⟨1 / 2, 3 / 2, 60, elapsed, 1 / 2⟩, ?_, rfl, ?_⟩
  · have hmap : budget.rational? = some elapsed := hbudget
    rw [rational?_standard, hmap, Option.map_some]
  · constructor
    · norm_num
    · norm_num
    · norm_num
    · norm_num
    · exact hnonneg

/-! ## What every run comes to -/

/-- Under a policy that advances, an operation each of whose calls fails for a while is called no
more often than the length of the shortest wait goes into the budget, and once more; the fault of
its last call is the outcome.  The policies of the settings are of this kind. -/
theorem retryDrawing_exhausts [DivisionRing κ] [LinearOrder κ] [IsStrictOrderedRing κ] [FloorSemiring κ]
    {p : Backoff κ} (hp : p.Advances) {isTransient : ε → Bool} {draws : Nat → κ}
    (hdraws : ∀ n, 0 ≤ draws n) {operation : κ → σ → Called σ κ ε α} {state : σ}
    (htakes : ∀ n, 0 ≤ (p.nthCall draws operation state n).takes)
    (hfails : ∀ n, ∃ e, (p.nthCall draws operation state n).outcome = .error e ∧
      isTransient e = true) :
    (∃ r last e, r.calls = last + 1 ∧ (p.nthCall draws operation state last).outcome = .error e ∧
      r.outcome = .error e ∧
      (∀ limit, r.calls ≤ limit →
        p.retryDrawing isTransient draws operation limit state = some r) ∧
      r.calls ≤ 1 + ⌈p.maxElapsed / min p.initialDelay p.maxDelay⌉₊) ∧
    ∀ settings policy elapsed, ofSettings settings = .ok policy →
      policy.maxElapsed.rational? = some elapsed → 0 ≤ elapsed →
      ∃ q, policy.rational? = some q ∧ q.maxElapsed = elapsed ∧ q.Advances := by
  refine ⟨?_, fun _ _ _ => exists_advances_of_ofSettings⟩
  obtain ⟨last, hlast, hrun⟩ :=
    Trial.exists_last_of_failing (t := p.script isTransient draws operation state) hp hdraws
      htakes hfails
  obtain ⟨e, houtcome, -⟩ := hfails last
  let account := (p.script isTransient draws operation state).account 0 last
  have hcalls : account.calls = last + 1 := rfl
  refine ⟨account.mapState fun made => (p.before draws operation state made).2, last, e, hcalls,
    houtcome, houtcome, ?_, ?_⟩
  · intro limit hlimit
    rw [retryDrawing_eq_script, hrun limit hlimit]
    rfl
  · exact (Nat.succ_le_succ hlast).trans (Nat.add_comm _ 1).le

/-! An operation that fails at once every time, under waits of one second: three of them use up the
budget. -/

/-- A policy that waits a second after every call, for three seconds. -/
def everySecond : Backoff ℚ := ⟨1, 1, 1, 3, 0⟩

/-- An operation that takes no time and always fails; the state is the number of calls. -/
def alwaysBusy (_now : ℚ) (made : Nat) : Called Nat ℚ String Unit := ⟨made + 1, 0, .error "busy"⟩

/-- Settings that name a budget of three seconds. -/
def threeSeconds : Value :=
  .object [("embedding", .object [("max_retry_seconds", .int 3)])]

theorem retryDrawing_exhausts_everySecond :
    everySecond.Advances ∧ (∀ _ : Nat, (0 : ℚ) ≤ 0) ∧
      (∀ n, 0 ≤ (everySecond.nthCall (fun _ => 0) alwaysBusy 0 n).takes) ∧
      (∀ n, ∃ e, (everySecond.nthCall (fun _ => 0) alwaysBusy 0 n).outcome = .error e ∧
        (e == "busy") = true) ∧
      (∃ r, everySecond.retryDrawing (· == "busy") (fun _ => 0) alwaysBusy 10 0 = some r ∧
        r.calls = 4 ∧ r.outcome = .error "busy" ∧ r.calls ≤ 1 + ⌈everySecond.maxElapsed /
          min everySecond.initialDelay everySecond.maxDelay⌉₊) ∧
      ∃ policy q, ofSettings threeSeconds = .ok policy ∧ policy.rational? = some q ∧
        q.maxElapsed = 3 ∧ q.Advances := by
  have hp : everySecond.Advances := by constructor <;> norm_num [everySecond]
  have hdraws : ∀ _ : Nat, (0 : ℚ) ≤ 0 := fun _ => le_refl 0
  have htakes : ∀ n, 0 ≤ (everySecond.nthCall (fun _ => 0) alwaysBusy 0 n).takes :=
    fun _ => le_refl 0
  have hfails : ∀ n, ∃ e, (everySecond.nthCall (fun _ => 0) alwaysBusy 0 n).outcome = .error e ∧
      (e == "busy") = true := fun _ => ⟨"busy", rfl, rfl⟩
  obtain ⟨⟨r, last, e, -, hlast, houtcome, hrun, hbound⟩, hsettings⟩ :=
    retryDrawing_exhausts hp hdraws htakes hfails
  have hceil : ⌈everySecond.maxElapsed / min everySecond.initialDelay everySecond.maxDelay⌉₊ =
      3 := by norm_num [everySecond]
  have hten := hrun 10 (by omega)
  have hcalls : (everySecond.retryDrawing (· == "busy") (fun _ => 0) alwaysBusy 10 0).map
      Retried.calls = some 4 := by decide +kernel
  rw [hten] at hcalls
  obtain rfl : "busy" = e := Except.error.inj hlast
  refine ⟨hp, hdraws, htakes, hfails, ⟨r, hten, Option.some.inj hcalls, houtcome, hbound⟩, ?_⟩
  have hpolicy : ofSettings threeSeconds = .ok { standard with maxElapsed := Double.ofNat 3 } := by
    decide +kernel
  have hbudget : (Double.ofNat 3).rational? = some 3 := by decide +kernel
  obtain ⟨q, hexact⟩ := hsettings _ _ 3 hpolicy hbudget (by norm_num)
  exact ⟨_, q, hpolicy, hexact⟩

end Backoff

end CodeCatalog
