import CodeCatalog.Proofs.Lists
import CodeCatalog.Store.Ranking
import Mathlib.Order.Lattice
set_option autoImplicit false

/-!
# What a ranking is

A ranking holds what it ranks, each point once, even by scores that have no order.  By scores that
have one the points come in descending order, and points with one score stay in theirs.
-/

namespace CodeCatalog

/-! ## Binary insertion -/

namespace Ranking

variable {α : Type} (better : α → α → Bool)

theorem position_le (x : α) (placed : List α) {low high : Nat} (h : low ≤ high) :
    position better x placed low high ≤ high := by
  fun_induction position better x placed low high with
  | case1 low high hlow middle hnone => exact h
  | case2 low high hlow middle y hy hbetter ih =>
    have hmiddle := ih (by omega)
    omega
  | case3 low high hlow middle y hy hbetter ih => exact ih (by omega)
  | case4 low high hlow => exact h

theorem place_perm (placed : List α) (x : α) : (place better placed x).Perm (x :: placed) :=
  List.perm_insertIdx x placed (position_le better x placed (Nat.zero_le _))

theorem leadingRun_perm (xs : List α) :
    ((leadingRun better xs).1 ++ (leadingRun better xs).2).Perm xs := by
  unfold leadingRun
  split
  · exact List.Perm.refl _
  · exact List.Perm.refl _
  · dsimp only
    split
    · refine ((List.reverse_perm _).append_right _).trans ?_
      rw [List.take_append_drop]
    · rw [List.take_append_drop]

theorem foldl_place_perm (xs placed : List α) :
    (xs.foldl (place better) placed).Perm (placed ++ xs) := by
  induction xs generalizing placed with
  | nil => simp
  | cons x xs ih =>
    have hplaced := (place_perm better placed x).append_right xs
    exact (ih _).trans (hplaced.trans List.perm_middle.symm)

theorem arrange_perm (xs : List α) : (arrange better xs).Perm xs :=
  (foldl_place_perm better _ _).trans (leadingRun_perm better xs)

end Ranking

/-! ## Rankings hold what they rank -/

theorem rank_perm {S : Type} (score : List Double → S) (worse : S → S → Bool)
    (points : List Point) : (rank score worse points).Perm (scored score points) :=
  List.mergeSort_perm _ _

theorem rankNearest_perm (vector : List Double) (points : List Point) :
    (rankNearest vector points).Perm (scored (dotProduct vector) points) := by
  unfold rankNearest
  dsimp only
  split
  · exact Ranking.arrange_perm _ _
  · exact rank_perm _ _ _

/-- Whatever the scores are, only points of the collection are ranked. -/
theorem mem_of_mem_rankNearest {vector : List Double} {points : List Point} {hit : Double × Point}
    (h : hit ∈ rankNearest vector points) : hit.2 ∈ points := by
  have hscored := (rankNearest_perm vector points).mem_iff.1 h
  obtain ⟨p, hp, rfl⟩ := List.mem_map.1 hscored
  exact hp

/-! ## Rankings by scores that have an order -/

section

variable {α S : Type} [LinearOrder S]

/-- A list in the order of a score, the best first, where ties keep their order. -/
structure IsRanking (score : α → S) (xs ranked : List α) : Prop where
  perm : ranked.Perm xs
  descending : ranked.Pairwise fun a b => score b ≤ score a
  stable : ∀ x : S, (ranked.filter fun a => score a = x) = xs.filter fun a => score a = x

theorem isRanking_mergeSort (score : α → S) (xs : List α) :
    IsRanking score xs (xs.mergeSort fun a b => decide (score b ≤ score a)) := by
  have htrans : ∀ a b c : α, decide (score b ≤ score a) = true → decide (score c ≤ score b) = true →
      decide (score c ≤ score a) = true := by
    intro a b c hab hbc
    exact decide_eq_true (le_trans (of_decide_eq_true hbc) (of_decide_eq_true hab))
  have htotal : ∀ a b : α, (decide (score b ≤ score a) || decide (score a ≤ score b)) = true := by
    intro a b
    rw [Bool.or_eq_true, decide_eq_true_eq, decide_eq_true_eq]
    exact le_total (score b) (score a)
  refine ⟨List.mergeSort_perm _ _, ?_, fun x => ?_⟩
  · exact (List.pairwise_mergeSort htrans htotal xs).imp of_decide_eq_true
  · refine filter_mergeSort htrans htotal (fun a b ha hb => ?_) xs
    have hscores : score a = score b :=
      (of_decide_eq_true ha).trans (of_decide_eq_true hb).symm
    exact decide_eq_true (le_of_eq hscores.symm)

/-- Points that stand for other things are ranked as those are. -/
theorem rank_map (score : List Double → S) (point : α → Point) (xs : List α) :
    rank score (fun a b => decide (a ≤ b)) (xs.map point) =
      (xs.mergeSort fun a b => decide (score (point b).vector ≤ score (point a).vector)).map
        fun a => (score (point a).vector, point a) := by
  rw [rank, scored, List.map_map]
  symm
  apply List.map_mergeSort
  intro a _ b _
  rfl

end

end CodeCatalog
