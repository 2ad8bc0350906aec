import CodeCatalog.Chunk.Merge
import CodeCatalog.Proofs.Lists
import CodeCatalog.Proofs.Text.Distinct
set_option autoImplicit false

/-!
# The entities of each file

Before entities are merged they are told apart by their files.  The files come in the order in
which they are first seen, and the entities of a file are put in the order of their first lines,
where ties keep their order.  Lists that have no file in common are told apart independently of
each other.
-/

namespace CodeCatalog

/-! ## Line order -/

/-- A list put in the order of first lines, where ties keep their order. -/
structure InLineOrder (es sorted : List (Entity Text)) : Prop where
  perm : sorted.Perm es
  ordered : sorted.Pairwise fun a b => a.lineFrom ≤ b.lineFrom
  stable : ∀ line : Int, (sorted.filter fun e => e.lineFrom == line) =
    es.filter fun e => e.lineFrom == line

/-- The entities of one file in line order. -/
def inFile (es : List (Entity Text)) (path : Text) : List (Entity Text) :=
  (es.filter fun e => e.filePath == path).mergeSort fun a b => decide (a.lineFrom ≤ b.lineFrom)

theorem perFile_eq (es : List (Entity Text)) :
    perFile es = (Text.distinct (es.map Entity.filePath)).map (inFile es) := rfl

theorem mem_inFile {es : List (Entity Text)} {path : Text} {e : Entity Text} :
    e ∈ inFile es path ↔ e ∈ es ∧ e.filePath = path := by
  rw [inFile, List.mem_mergeSort, List.mem_filter, beq_iff_eq]

theorem lineFrom_le_trans (a b c : Entity Text) (hab : decide (a.lineFrom ≤ b.lineFrom) = true)
    (hbc : decide (b.lineFrom ≤ c.lineFrom) = true) :
    decide (a.lineFrom ≤ c.lineFrom) = true := by
  simp only [decide_eq_true_eq] at *
  omega

theorem lineFrom_le_total (a b : Entity Text) :
    (decide (a.lineFrom ≤ b.lineFrom) || decide (b.lineFrom ≤ a.lineFrom)) = true := by
  simp only [Bool.or_eq_true, decide_eq_true_eq]
  omega

theorem inLineOrder_inFile (es : List (Entity Text)) (path : Text) :
    InLineOrder (es.filter fun e => e.filePath == path) (inFile es path) where
  perm := List.mergeSort_perm _ _
  ordered := by
    have hsorted := List.pairwise_mergeSort lineFrom_le_trans lineFrom_le_total
      (es.filter fun e => e.filePath == path)
    exact hsorted.imp of_decide_eq_true
  stable := fun line => by
    refine filter_mergeSort lineFrom_le_trans lineFrom_le_total (fun a b ha hb => ?_) _
    rw [beq_iff_eq] at ha hb
    exact decide_eq_true (by omega)

/-- The entities of a single file that are in line order stay as they are. -/
theorem perFile_of_sorted {es : List (Entity Text)} {path : Text} (hne : es ≠ [])
    (hpath : ∀ e ∈ es, e.filePath = path)
    (hordered : es.Pairwise fun a b => a.lineFrom ≤ b.lineFrom) : perFile es = [es] := by
  have hall : ∀ t ∈ es.map Entity.filePath, t = path := by simpa using hpath
  have hfile : inFile es path = es := by
    rw [inFile, List.filter_eq_self.2 fun e he => beq_iff_eq.2 (hpath e he)]
    exact List.mergeSort_of_pairwise (hordered.imp fun h => decide_eq_true h)
  rw [perFile_eq, Text.distinct_of_forall_eq (by simpa using hne) hall, List.map_singleton, hfile]

/-- The entities of a single file stay where they are exactly if they are in line order. -/
theorem flatten_perFile_eq_iff {es : List (Entity Text)} {path : Text}
    (hpath : ∀ e ∈ es, e.filePath = path) :
    (perFile es).flatten = es ↔ es.Pairwise fun a b => a.lineFrom ≤ b.lineFrom := by
  rcases eq_or_ne es [] with rfl | hne
  · exact iff_of_true rfl .nil
  · constructor
    · intro hsame
      have hall : ∀ t ∈ es.map Entity.filePath, t = path := by simpa using hpath
      rw [perFile_eq, Text.distinct_of_forall_eq (by simpa using hne) hall, List.map_singleton,
        List.flatten_singleton] at hsame
      have hordered := (inLineOrder_inFile es path).ordered
      rwa [hsame] at hordered
    · intro hordered
      rw [perFile_of_sorted hne hpath hordered, List.flatten_singleton]

/-! ## Lists without a common file -/

theorem inFile_append_left {xs ys : List (Entity Text)} {path : Text}
    (h : ∀ e ∈ ys, e.filePath ≠ path) : inFile (xs ++ ys) path = inFile xs path := by
  have hnone : (ys.filter fun e => e.filePath == path) = [] := by
    simpa [List.filter_eq_nil_iff] using h
  rw [inFile, List.filter_append, hnone, List.append_nil]
  rfl

theorem inFile_append_right {xs ys : List (Entity Text)} {path : Text}
    (h : ∀ e ∈ xs, e.filePath ≠ path) : inFile (xs ++ ys) path = inFile ys path := by
  have hnone : (xs.filter fun e => e.filePath == path) = [] := by
    simpa [List.filter_eq_nil_iff] using h
  rw [inFile, List.filter_append, hnone, List.nil_append]
  rfl

theorem perFile_append {xs ys : List (Entity Text)}
    (h : ∀ x ∈ xs, ∀ y ∈ ys, x.filePath ≠ y.filePath) :
    perFile (xs ++ ys) = perFile xs ++ perFile ys := by
  have hpaths : ∀ path ∈ xs.map Entity.filePath, path ∉ ys.map Entity.filePath := by
    intro path hx hy
    obtain ⟨x, hxs, rfl⟩ := List.mem_map.1 hx
    obtain ⟨y, hys, hxy⟩ := List.mem_map.1 hy
    exact h x hxs y hys hxy.symm
  simp only [perFile_eq, List.map_append, Text.distinct_append hpaths]
  congr 1
  · refine List.map_congr_left fun path hpath => inFile_append_left fun y hy heq => ?_
    exact hpaths path (Text.mem_distinct.1 hpath) (heq ▸ List.mem_map_of_mem hy)
  · refine List.map_congr_left fun path hpath => inFile_append_right fun x hx heq => ?_
    exact hpaths path (heq ▸ List.mem_map_of_mem hx) (Text.mem_distinct.1 hpath)

/-- Entities without a common file are merged independently of each other. -/
theorem mergeEntities_append {level : Granularity} {bound : Option Int}
    {xs ys : List (Entity Text)} (h : ∀ x ∈ xs, ∀ y ∈ ys, x.filePath ≠ y.filePath) :
    mergeEntities level bound (xs ++ ys) =
      mergeEntities level bound xs ++ mergeEntities level bound ys := by
  rw [mergeEntities, Gathering.mergeAll, perFile_append h, List.flatMap_append]
  rfl

/-- Entities that come from things with different paths are merged for each of these apart. -/
theorem mergeEntities_flatMap {ι : Type} {level : Granularity} {bound : Option Int}
    {sources : List ι} {path : ι → Text} {entities : ι → List (Entity Text)}
    (hpath : ∀ i, ∀ e ∈ entities i, e.filePath = path i)
    (hsources : sources.Pairwise fun i j => path i ≠ path j) :
    mergeEntities level bound (sources.flatMap entities) =
      sources.flatMap fun i => mergeEntities level bound (entities i) := by
  induction sources with
  | nil => rfl
  | cons i sources ih =>
    obtain ⟨hi, hsources⟩ := List.pairwise_cons.1 hsources
    have hapart : ∀ x ∈ entities i, ∀ y ∈ sources.flatMap entities, x.filePath ≠ y.filePath := by
      intro x hx y hy
      obtain ⟨j, hj, hy⟩ := List.mem_flatMap.1 hy
      rw [hpath i x hx, hpath j y hy]
      exact hi j hj
    rw [List.flatMap_cons, mergeEntities_append hapart, ih hsources, List.flatMap_cons]

end CodeCatalog
