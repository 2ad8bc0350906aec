import CodeCatalog.Grammar.Python
import CodeCatalog.Proofs.Chunk.Merge
import CodeCatalog.Proofs.Extraction.Walk
set_option autoImplicit false

/-!
# Sizes of snippets

Extraction splits under a bound and merging gathers under the same bound or half of it.  Both
measure joined texts with a line feed between neighbours, so a snippet that is longer than the
bound at the end of the way is a single line that was so in the source.
-/

namespace CodeCatalog

/-- The bound that a level sets to the joined snippets of a group. -/
def Granularity.limit (level : Granularity) (bound : Int) : Int :=
  match level with
  | .medium => Int.fdiv bound 2
  | _ => bound

theorem Granularity.limit_le {bound : Int} (hb : 0 ≤ bound) (level : Granularity) :
    level.limit bound ≤ bound := by
  cases level with
  | fine => exact Int.le_refl _
  | medium =>
    rw [limit, Int.fdiv_eq_ediv_of_nonneg _ (by omega)]
    omega
  | coarse => exact Int.le_refl _

theorem Gathering.fits_ofLevel {level : Granularity} {bound : Int} {size : Nat} :
    (Gathering.ofLevel level (some bound)).fits size = true ↔
      (size : Int) ≤ level.limit bound := by
  cases level <;> exact decide_eq_true_iff

/-- Several members are folded only within the limit of the level. -/
theorem MergedFrom.length_le_limit {level : Granularity} {bound : Int}
    {es group : List (Entity Text)} {e : Entity Text}
    (h : MergedFrom level (some bound) es group e) (hlen : 2 ≤ group.length) :
    (e.snippet.length : Int) ≤ level.limit bound := by
  rw [Entity.snippet_of_merge? h.2]
  exact Gathering.fits_ofLevel.1 (h.isGroup.fits hlen)

/-- A single member is kept as it is. -/
theorem MergedFrom.mem_of_length_lt {level : Granularity} {bound : Option Int}
    {es group : List (Entity Text)} {e : Entity Text} (h : MergedFrom level bound es group e)
    (hlen : group.length < 2) : e ∈ es := by
  rcases group with _ | ⟨d, _ | ⟨d', rest⟩⟩
  · exact absurd rfl h.isGroup.ne_nil
  · rw [← Option.some.inj h.2]
    exact h.mem_of_mem List.mem_cons_self
  · simp only [List.length_cons] at hlen
    omega

theorem SourceFile.isBounded_of_mem_entities {f : SourceFile} {root : Node} {bound : Int}
    (hb : 1 ≤ bound) {e : Entity Text} (h : e ∈ f.entities root (some bound)) :
    e.snippet.IsBounded bound := by
  rw [entities_eq_flatMap] at h
  obtain ⟨s, _, he⟩ := List.mem_flatMap.1 h
  exact Entity.isBounded_of_mem_split hb he

/-- Merging keeps snippets within a bound that all of them are in, single lines apart. -/
theorem isBounded_of_mem_mergeEntities {level : Granularity} {bound : Int}
    {es : List (Entity Text)} {e : Entity Text} (hb : 0 ≤ bound)
    (hes : ∀ d ∈ es, d.snippet.IsBounded bound) (h : e ∈ mergeEntities level (some bound) es) :
    e.snippet.IsBounded bound := by
  obtain ⟨group, h⟩ := mem_mergeEntities_iff.1 h
  rcases Nat.lt_or_ge group.length 2 with hlen | hlen
  · exact hes e (h.mem_of_length_lt hlen)
  · exact Or.inl (Int.le_trans (h.length_le_limit hlen) (Granularity.limit_le hb level))

/-- The snippets of a file's entities, split and then merged under one bound, stay within it
except for single lines; and what the medium level folds stays within half of it. -/
theorem snippets_isBounded (f : SourceFile) (root : Node) (level : Granularity) {bound : Int}
    (hb : 1 ≤ bound) :
    (∀ e ∈ mergeEntities level (some bound) (f.entities root (some bound)),
      e.snippet.IsBounded bound) ∧
    (∀ group e, MergedFrom .medium (some bound) (f.entities root (some bound)) group e →
      2 ≤ group.length → (e.snippet.length : Int) ≤ Int.fdiv bound 2) := by
  refine ⟨fun e he => ?_, fun group e h hlen => ?_⟩
  · exact isBounded_of_mem_mergeEntities (by omega)
      (fun d hd => f.isBounded_of_mem_entities hb hd) he
  · exact h.length_le_limit hlen

/-- A file of two imports, and its tree. -/
def twoImports : SourceFile where
  grammar := Grammar.python
  source := Utf8.encode "import os\nimport re\n"
  path := ⟨[], ["tools.py"]⟩

def twoImportsTree : Node :=
  ⟨"module", true, "", 0, 20,
    [⟨"import_statement", true, "", 0, 9, []⟩, ⟨"import_statement", true, "", 10, 19, []⟩]⟩

theorem snippets_isBounded_twoImports : (1 : Int) ≤ 40 ∧
    (∀ e ∈ mergeEntities .medium (some 40) (twoImports.entities twoImportsTree (some 40)),
      e.snippet.IsBounded 40) ∧
    (∀ group e,
      MergedFrom .medium (some 40) (twoImports.entities twoImportsTree (some 40)) group e →
      2 ≤ group.length → (e.snippet.length : Int) ≤ Int.fdiv 40 2) :=
  ⟨by decide, snippets_isBounded twoImports twoImportsTree .medium (by decide)⟩

end CodeCatalog
