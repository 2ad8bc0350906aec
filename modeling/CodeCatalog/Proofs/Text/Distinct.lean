import CodeCatalog.Text
import Mathlib.Data.List.Basic
set_option autoImplicit false

/-!
# Distinct texts

The texts of a list are told apart in the order in which they are first seen.  Each of them is kept
once, so a list of different texts stays as it is, and what two lists hold is told apart
independently if they have no text in common.
-/

namespace CodeCatalog.Text

/-- The texts of a list, each once, in the order of their first places in it. -/
structure IsFirstSeen (ts firsts : List Text) : Prop where
  mem_iff : ∀ t, t ∈ firsts ↔ t ∈ ts
  ordered : firsts.Pairwise fun a b => ts.idxOf a < ts.idxOf b

theorem mem_distinct {ts : List Text} {t : Text} : t ∈ distinct ts ↔ t ∈ ts := by
  induction ts with
  | nil => rfl
  | cons u us ih =>
    by_cases h : t = u
    · simp [distinct, h]
    · simp [distinct, h, ih]

/-- A text that is not the first one of a list stands one place later than in the rest. -/
theorem idxOf_lt_idxOf_cons {ts : List Text} {t a b : Text} (ha : a ≠ t) (hb : b ≠ t)
    (h : ts.idxOf a < ts.idxOf b) : (t :: ts).idxOf a < (t :: ts).idxOf b := by
  rw [List.idxOf_cons_ne _ ha.symm, List.idxOf_cons_ne _ hb.symm]
  exact Nat.succ_lt_succ h

theorem pairwise_distinct (ts : List Text) :
    (distinct ts).Pairwise fun a b => ts.idxOf a < ts.idxOf b := by
  induction ts with
  | nil => exact List.Pairwise.nil
  | cons t ts ih =>
    have hne : ∀ u ∈ (distinct ts).filter fun u => !(u == t), u ≠ t := by
      intro u hu
      simpa using (List.mem_filter.1 hu).2
    refine List.Pairwise.cons (fun u hu => ?_) ?_
    · rw [List.idxOf_cons_self, List.idxOf_cons_ne _ (hne u hu).symm]
      exact Nat.succ_pos _
    · refine (ih.sublist List.filter_sublist).imp_of_mem fun ha hb h => ?_
      exact idxOf_lt_idxOf_cons (hne _ ha) (hne _ hb) h

theorem isFirstSeen_distinct (ts : List Text) : IsFirstSeen ts (distinct ts) :=
  ⟨fun _ => mem_distinct, pairwise_distinct ts⟩

theorem nodup_distinct (ts : List Text) : (distinct ts).Nodup := by
  refine (pairwise_distinct ts).imp fun {a b} hlt heq => ?_
  rw [heq] at hlt
  exact Nat.lt_irrefl _ hlt

theorem distinct_filter (p : Text → Bool) (ts : List Text) :
    (distinct ts).filter p = distinct (ts.filter p) := by
  induction ts with
  | nil => rfl
  | cons t ts ih =>
    rw [distinct]
    cases hp : p t with
    | true =>
      rw [List.filter_cons_of_pos hp, List.filter_cons_of_pos hp, distinct, ← ih,
        List.filter_comm]
    | false =>
      have hmiss : ∀ u ∈ distinct ts, (p u && !(u == t)) = p u := by
        intro u _
        by_cases hu : u = t
        · rw [hu, hp, Bool.false_and]
        · rw [beq_eq_false_iff_ne.2 hu, Bool.not_false, Bool.and_true]
      rw [List.filter_cons_of_neg (by simp [hp]), List.filter_cons_of_neg (by simp [hp]), ← ih,
        List.filter_filter]
      exact List.filter_congr hmiss

theorem distinct_append {ts us : List Text} (h : ∀ t ∈ ts, t ∉ us) :
    distinct (ts ++ us) = distinct ts ++ distinct us := by
  induction ts with
  | nil => rfl
  | cons t ts ih =>
    have hkeep : (distinct us).filter (fun u => !(u == t)) = distinct us := by
      refine List.filter_eq_self.2 fun u hu => ?_
      have hne : u ≠ t := by
        rintro rfl
        exact h u (by simp) (mem_distinct.1 hu)
      simpa using hne
    rw [List.cons_append, distinct, ih fun u hu => h u (List.mem_cons_of_mem _ hu),
      List.filter_append, hkeep]
    rfl

theorem distinct_of_forall_eq {ts : List Text} {t : Text} (hne : ts ≠ [])
    (h : ∀ u ∈ ts, u = t) : distinct ts = [t] := by
  cases ts with
  | nil => exact absurd rfl hne
  | cons u us =>
    obtain rfl : u = t := h u List.mem_cons_self
    have hrest : (distinct us).filter (fun v => !(v == u)) = [] := by
      refine List.filter_eq_nil_iff.2 fun v hv => ?_
      simp [h v (List.mem_cons_of_mem _ (mem_distinct.1 hv))]
    rw [distinct, hrest]

theorem distinct_sublist (ts : List Text) : (distinct ts).Sublist ts := by
  induction ts with
  | nil => exact .slnil
  | cons t ts ih => exact (List.filter_sublist.trans ih).cons_cons t

theorem distinct_of_nodup {ts : List Text} (h : ts.Nodup) : distinct ts = ts := by
  induction ts with
  | nil => rfl
  | cons t ts ih =>
    obtain ⟨hnew, hrest⟩ := List.nodup_cons.1 h
    rw [distinct, ih hrest, List.filter_eq_self.2]
    intro u hu
    have hne : u ≠ t := by
      rintro rfl
      exact hnew hu
    simpa using hne

end CodeCatalog.Text
