import CodeCatalog.Proofs.Chunk.Size
import Mathlib.Algebra.Order.BigOperators.Group.List
import Mathlib.Algebra.Order.Group.Nat
import Mathlib.Algebra.Ring.Nat
import Mathlib.Data.List.Induction
set_option autoImplicit false

/-!
# The fewest groups

Greedy gathering of whatever is adjacent makes the fewest groups: no other way to cut a list into
single entities and groups within the bound has fewer.  The number of groups depends on the size
of the open group alone.  It never shrinks when that size grows, and never by more than one when
the open group is exchanged for any other.

So the coarse level leaves no more entities than the medium or the fine one.  The medium level
fills only half of the bound, and leaves no more than the fine one where that folds nothing
beyond this half.
-/

namespace CodeCatalog

/-- The snippets of a group are joined by one line feed for each member behind the first. -/
theorem joinedLength_cons (first : Entity Text) (more : List (Entity Text)) :
    joinedLength (first :: more) =
      first.snippet.length + (more.map fun e => e.snippet.length + 1).sum := by
  induction more using List.reverseRecOn with
  | nil => simp
  | append_singleton more e ih =>
    rw [← List.cons_append, joinedLength_concat (by simp), ih, List.map_append, List.sum_append]
    simp only [List.map_singleton, List.sum_singleton]
    omega

namespace Gathering

variable {g : Gathering} {bound : Option Int}

theorem fits_of_le {size size' : Nat} (h : size ≤ size') (hfits : g.fits size' = true) :
    g.fits size = true := by
  unfold fits at *
  split at hfits
  · rfl
  · rw [decide_eq_true_eq] at *
    omega

theorem isGroup_any_iff {group : List (Entity Text)} :
    (any bound).IsGroup group ↔
      group ≠ [] ∧ (2 ≤ group.length → (any bound).fits (joinedLength group) = true) := by
  constructor
  · intro h
    exact ⟨h.ne_nil, h.fits⟩
  · rintro ⟨hne, hfits⟩
    match group, hne, hfits with
    | first :: more, _, hfits =>
      refine ⟨fun _ _ => rfl, fun hmore => hfits ?_⟩
      have hpos := List.length_pos_iff.2 hmore
      rw [List.length_cons]
      omega

/-! ## Counting groups -/

/-- The number of groups that are begun behind an open group of a size, if whatever is adjacent
is gathered. -/
def begunBehind (bound : Option Int) (size : Nat) : List (Entity Text) → Nat
  | [] => 0
  | e :: rest =>
    let joined := size + e.snippet.length + 1
    if (any bound).fits joined then begunBehind bound joined rest
    else begunBehind bound e.snippet.length rest + 1

theorem length_groupsFrom_any (first : Entity Text) (more : List (Entity Text)) (size : Nat)
    (es : List (Entity Text)) :
    ((any bound).groupsFrom first more size es).length = begunBehind bound size es + 1 := by
  induction es generalizing first more size with
  | nil => rfl
  | cons e rest ih =>
    have hjoins : (any bound).joins first e = true := rfl
    simp only [groupsFrom, begunBehind, hjoins, Bool.true_and]
    split
    · exact ih first (more ++ [e]) _
    · rw [List.length_cons, ih]

/-- A smaller open group begins no more others behind it, and any open group begins at most one
more than any other. -/
theorem begunBehind_le (bound : Option Int) (es : List (Entity Text)) :
    (∀ size size', size ≤ size' → begunBehind bound size es ≤ begunBehind bound size' es) ∧
      ∀ size size', begunBehind bound size es ≤ begunBehind bound size' es + 1 := by
  induction es with
  | nil => exact ⟨fun _ _ _ => Nat.le_refl _, fun _ _ => Nat.zero_le _⟩
  | cons e rest ih =>
    obtain ⟨hmono, hany⟩ := ih
    refine ⟨fun size size' hle => ?_, fun size size' => ?_⟩
    · have hjoined : size + e.snippet.length + 1 ≤ size' + e.snippet.length + 1 := by omega
      simp only [begunBehind]
      split
      · split
        · exact hmono _ _ hjoined
        · exact hany _ _
      · rename_i hclosed
        rw [if_neg fun hfits => hclosed (fits_of_le hjoined hfits)]
    · simp only [begunBehind]
      split
      · split
        · exact hany _ _
        · exact Nat.le_succ_of_le (hany _ _)
      · -- The first one closes its group with `e`, so its next group is no larger than a group
        -- of the other one that holds `e`.
        split
        · exact Nat.succ_le_succ (hmono _ _ (by omega))
        · exact Nat.le_succ _

theorem begunBehind_le_length_groups (size : Nat) (es : List (Entity Text)) :
    begunBehind bound size es ≤ ((any bound).groups es).length := by
  cases es with
  | nil => exact Nat.zero_le _
  | cons e rest =>
    rw [groups, length_groupsFrom_any]
    simp only [begunBehind]
    split
    · exact (begunBehind_le bound rest).2 _ _
    · exact Nat.le_refl _

/-- An open group takes all that stays within the bound. -/
theorem begunBehind_append (size : Nat) (more es : List (Entity Text))
    (h : more ≠ [] →
      (any bound).fits (size + (more.map fun e => e.snippet.length + 1).sum) = true) :
    begunBehind bound size (more ++ es) =
      begunBehind bound (size + (more.map fun e => e.snippet.length + 1).sum) es := by
  induction more generalizing size with
  | nil => rfl
  | cons e more ih =>
    have hall := h (by simp)
    rw [List.map_cons, List.sum_cons] at hall ⊢
    have hsum : size + (e.snippet.length + 1 + (more.map fun e => e.snippet.length + 1).sum) =
        size + e.snippet.length + 1 + (more.map fun e => e.snippet.length + 1).sum := by omega
    rw [hsum] at hall ⊢
    have htaken : (any bound).fits (size + e.snippet.length + 1) = true :=
      fits_of_le (by omega) hall
    simp only [List.cons_append, begunBehind, htaken, if_true]
    exact ih _ fun _ => hall

/-- No way to cut a list into single entities and groups within the bound has fewer parts than
gathering whatever is adjacent. -/
theorem length_groups_any_le {groups : List (List (Entity Text))}
    (h : ∀ group ∈ groups, (any bound).IsGroup group) :
    ((any bound).groups groups.flatten).length ≤ groups.length := by
  induction groups with
  | nil => exact Nat.le_refl _
  | cons group rest ih =>
    have hgroup := isGroup_any_iff.1 (h group List.mem_cons_self)
    have hrest := ih fun other hother => h other (List.mem_cons_of_mem _ hother)
    match group, hgroup with
    | first :: more, ⟨_, hfits⟩ =>
      have hwhole : more ≠ [] → (any bound).fits (first.snippet.length +
          (more.map fun e => e.snippet.length + 1).sum) = true := by
        intro hmore
        have hpos := List.length_pos_iff.2 hmore
        rw [← joinedLength_cons]
        exact hfits (by simp only [List.length_cons]; omega)
      rw [List.flatten_cons, List.cons_append, Gathering.groups, length_groupsFrom_any,
        begunBehind_append _ _ _ hwhole, List.length_cons]
      exact Nat.succ_le_succ (Nat.le_trans (begunBehind_le_length_groups _ _) hrest)

/-! ## Counting merged entities -/

theorem length_mergeAll (g : Gathering) (es : List (Entity Text)) :
    (g.mergeAll es).length = (g.fileGroups es).length := by
  have hnonempty : [] ∉ g.fileGroups es := by
    intro hnil
    obtain ⟨file, _, hnil⟩ := List.mem_flatMap.1 hnil
    exact (isGroup_of_mem_groups hnil).ne_nil rfl
  rw [mergeAll_eq_filterMap, (forall₂_filterMap_merge? hnonempty).length_eq]

/-- Gathering whatever is adjacent leaves no more entities than another way of gathering whose
groups stay within the bound. -/
theorem length_mergeAll_any_le {es : List (Entity Text)}
    (h : ∀ group ∈ g.fileGroups es, (any bound).IsGroup group) :
    ((any bound).mergeAll es).length ≤ (g.mergeAll es).length := by
  rw [length_mergeAll, length_mergeAll, fileGroups, fileGroups, List.length_flatMap,
    List.length_flatMap]
  refine List.sum_le_sum fun file hfile => ?_
  have hgroups : ((any bound).groups (g.groups file).flatten).length ≤ (g.groups file).length :=
    length_groups_any_le fun group hgroup => h group (List.mem_flatMap.2 ⟨file, hfile, hgroup⟩)
  rwa [flatten_groups] at hgroups

end Gathering

/-! ## Levels -/

/-- A size within the limit of a level is within the whole bound. -/
theorem Granularity.le_of_le_limit {level : Granularity} {bound : Int} {size : Nat}
    (h : (size : Int) ≤ level.limit bound) : (size : Int) ≤ bound := by
  cases level with
  | fine => exact h
  | medium =>
    rw [limit, Int.fdiv_eq_ediv_of_nonneg _ (by omega)] at h
    omega
  | coarse => exact h

theorem Gathering.fits_any_of_fits_ofLevel {level : Granularity} {bound : Option Int} {size : Nat}
    (h : (ofLevel level bound).fits size = true) : (any bound).fits size = true := by
  cases bound with
  | none => rfl
  | some bound => exact decide_eq_true (Granularity.le_of_le_limit (fits_ofLevel.1 h))

/-- No level leaves fewer entities than the coarse one. -/
theorem length_coarse_le (level : Granularity) (bound : Option Int) (es : List (Entity Text)) :
    (mergeEntities .coarse bound es).length ≤ (mergeEntities level bound es).length := by
  refine Gathering.length_mergeAll_any_le fun group hgroup => ?_
  obtain ⟨file, _, hgroup⟩ := List.mem_flatMap.1 hgroup
  have hgroup := Gathering.isGroup_of_mem_groups hgroup
  exact Gathering.isGroup_any_iff.2
    ⟨hgroup.ne_nil, fun hlen => Gathering.fits_any_of_fits_ofLevel (hgroup.fits hlen)⟩

/-- What the fine level folds is within half of the bound. -/
def FineWithinHalf (bound : Option Int) (es : List (Entity Text)) : Prop :=
  ∀ group e, MergedFrom .fine bound es group e → 2 ≤ group.length →
    ∀ b ∈ bound, (e.snippet.length : Int) ≤ Granularity.medium.limit b

theorem length_medium_le_fine {bound : Option Int} {es : List (Entity Text)}
    (h : FineWithinHalf bound es) :
    (mergeEntities .medium bound es).length ≤ (mergeEntities .fine bound es).length := by
  refine Gathering.length_mergeAll_any_le fun group hgroup => ?_
  obtain ⟨file, _, hmem⟩ := List.mem_flatMap.1 hgroup
  have hne := (Gathering.isGroup_of_mem_groups hmem).ne_nil
  obtain ⟨e, he⟩ := Entity.exists_merge?_eq_some hne
  refine Gathering.isGroup_any_iff.2 ⟨hne, fun hlen => ?_⟩
  cases bound with
  | none => rfl
  | some b =>
    have hhalf := h group e ⟨hgroup, he⟩ hlen b rfl
    rw [Entity.snippet_of_merge? he] at hhalf
    exact decide_eq_true hhalf

/-- Without a bound there is no half of it to exceed. -/
theorem fineWithinHalf_none (es : List (Entity Text)) : FineWithinHalf none es :=
  fun _ _ _ _ _ hb => nomatch hb

/-- The coarse level leaves no more entities than the medium and the fine one.  The medium level
leaves no more than the fine one if all that the fine one folds is within half of the bound, as
it is without a bound. -/
theorem length_mergeEntities_le (bound : Option Int) (es : List (Entity Text)) :
    (mergeEntities .coarse bound es).length ≤ (mergeEntities .medium bound es).length ∧
      (mergeEntities .coarse bound es).length ≤ (mergeEntities .fine bound es).length ∧
      (FineWithinHalf bound es →
        (mergeEntities .medium bound es).length ≤ (mergeEntities .fine bound es).length) :=
  ⟨length_coarse_le .medium bound es, length_coarse_le .fine bound es, length_medium_le_fine⟩

/-- An import on a line of its own. -/
def importLine (line : Int) (statement : Text) : Entity Text where
  name := statement
  signature := statement
  kind := Kind.importItem
  docstring := none
  line := line
  lineFrom := line
  lineTo := line
  context := ⟨"tools.py", "tools.py", statement, some "tools", none⟩
  embedding := none

/-- Two short imports. -/
def shortImports : List (Entity Text) := [importLine 1 "import json", importLine 2 "import re"]

/-- Under a bound of 30 the fine level joins two short imports, and the medium level, for which
they are too long together, leaves both. -/
theorem length_medium_shortImports :
    ¬ (mergeEntities .medium (some 30) shortImports).length ≤
      (mergeEntities .fine (some 30) shortImports).length := by
  have hpath : ∀ e ∈ shortImports, e.filePath = "tools.py" := by
    intro e he
    rcases List.mem_pair.1 he with rfl | rfl <;> rfl
  have hfile : perFile shortImports = [shortImports] :=
    perFile_of_sorted (by simp [shortImports]) hpath (by simp [shortImports, importLine])
  rw [mergeEntities, mergeEntities, Gathering.length_mergeAll, Gathering.length_mergeAll,
    Gathering.fileGroups, Gathering.fileGroups, hfile]
  decide

end CodeCatalog
