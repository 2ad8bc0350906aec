import CodeCatalog.Grammar.Rust
import CodeCatalog.Grammar.Script
import CodeCatalog.Proofs.Extraction.Site
import CodeCatalog.Proofs.Text.Trim
set_option autoImplicit false

/-!
# The names of entities

A definition without a name gives no entity.  But what is asked for is the name in the source, and
the name that is shown for a module is without its quotes; and of a declarator nothing is asked at
all.  So an entity has no name exactly if it is a declarator whose name node covers no text, or a
module whose name is nothing but quotes.
-/

namespace CodeCatalog

namespace SourceFile

variable {f : SourceFile} {root : Node} {p : Place} {rule : Rule} {scope : Scope} {s : Site}

/-- The entity of a site has no name: it is a declarator whose name node covers no text, or a module
whose name is nothing but quotes. -/
def IsNameless (f : SourceFile) (s : Site) : Prop :=
  (s.rule.declarators ≠ [] ∧
    ∃ nameNode, declaratorName? s.rule s.place = some nameNode ∧ f.text nameNode.node = []) ∨
  (s.rule.declarators = [] ∧ s.rule.labelRule = some .unquoted ∧
    ∀ g ∈ s.rawName, Text.oneOf "'\"" g = true)

theorem shownName_eq_nil_iff {name : Text} (hname : name ≠ []) :
    f.shownName rule p name = [] ↔
      rule.labelRule = some .unquoted ∧ ∀ g ∈ name, Text.oneOf "'\"" g = true := by
  rw [shownName]
  match hlabel : rule.labelRule with
  | none => simp [hname]
  | some .implementation =>
    have hne : f.labelBy .implementation p name ≠ [] := by
      rw [labelBy]
      split <;> simp [Text.ofString]
    simp [hne]
  | some .unquoted => simp [labelBy, unquote, Text.trimWhile_eq_nil_iff]

theorem name_eq_nil_iff (hs : s ∈ f.sites root) : s.entity.name = [] ↔ f.IsNameless s := by
  obtain ⟨p, scope, wrapper, -, hsite⟩ := exists_visited_of_mem_sites hs
  obtain ⟨rule, -, -, ⟨hdefines, hs⟩ | ⟨hdeclares, hs⟩⟩ := defines_or_declares hsite
  · rw [hs.name_eq, shownName_eq_nil_iff hs.rawName_ne_nil, IsNameless, hs.rule_eq]
    simp [hdefines]
  · obtain ⟨nameNode, hnode, htext⟩ := Option.map_eq_some_iff.1 hs.rawName_eq
    rw [hs.name_eq, ← htext, IsNameless, hs.rule_eq]
    simp [hdeclares, hnode]

/-- A chunk has a name whether its entity has one or not. -/
theorem name_ne_nil_of_isCutInto {e c : Entity Text} {bound : Int} {chunks : List (Entity Text)}
    (h : e.IsCutInto bound chunks) (hc : c ∈ chunks) : c.name ≠ [] := by
  have hname : c.name ∈ chunks.map Entity.name := List.mem_map_of_mem hc
  rw [h.names] at hname
  obtain ⟨number, -, hname⟩ := List.mem_map.1 hname
  rw [← hname, Entity.chunkName]
  simp [Text.ofString]

/-- Every entity of a file has a name exactly if no site that fits without being cut is a declarator
whose name node covers no text, or a module whose name is nothing but quotes. -/
theorem names_ne_nil_iff (f : SourceFile) (root : Node) (bound : Option Int) :
    (∀ e ∈ f.entities root bound, e.name ≠ []) ↔
      ∀ s ∈ f.sites root, s.entity.fits bound = true → ¬ f.IsNameless s := by
  rw [entities_eq_flatMap]
  constructor
  · intro hnames s hs hfits hnameless
    have hmem : s.entity ∈ (f.sites root).flatMap fun s => s.entity.split bound := by
      refine List.mem_flatMap.2 ⟨s, hs, ?_⟩
      rw [Entity.split_of_fits hfits]
      exact List.mem_singleton_self _
    exact hnames s.entity hmem ((name_eq_nil_iff hs).2 hnameless)
  · intro hsites e he
    obtain ⟨s, hs, he⟩ := List.mem_flatMap.1 he
    rcases s.entity.split_cases bound with ⟨hfits, hsplit⟩ | ⟨b, -, -, hcut⟩
    · rw [hsplit, List.mem_singleton] at he
      rw [he]
      exact fun hnil => hsites s hs hfits ((name_eq_nil_iff hs).1 hnil)
    · exact name_ne_nil_of_isCutInto hcut he

/-- In a language without declarations and without quoted names every site has a name. -/
theorem not_isNameless_of_rules
    (hrules : ∀ type rule, f.grammar.rule? type = some rule →
      rule.declarators = [] ∧ rule.labelRule ≠ some .unquoted)
    (hs : s ∈ f.sites root) : ¬ f.IsNameless s := by
  obtain ⟨p, scope, wrapper, -, hsite⟩ := exists_visited_of_mem_sites hs
  obtain ⟨rule, hrule, -, ⟨-, hs⟩ | ⟨hdeclares, -⟩⟩ := defines_or_declares hsite
  · obtain ⟨hdefines, hlabel⟩ := hrules _ _ hrule
    rintro (⟨hdeclares, -⟩ | ⟨-, hunquoted, -⟩)
    · exact hdeclares (hs.rule_eq ▸ hdefines)
    · exact hlabel (hs.rule_eq ▸ hunquoted)
  · exact absurd (hrules _ _ hrule).1 hdeclares

/-- Rust is such a language. -/
example : ∀ r ∈ Grammar.rust.rules, r.2.declarators = [] ∧ r.2.labelRule ≠ some .unquoted := by
  decide

/-! ## A module without a name -/

/-- An ambient module whose name is an empty string literal. -/
def ambientModule : SourceFile where
  grammar := Grammar.typescript
  source := Utf8.encode "declare module \"\" \x7b\x7d\n"
  path := ⟨[], ["src", "types.ts"]⟩

def unnamedModule : Node :=
  ⟨"module", true, "", 8, 20,
    [⟨"module", false, "", 8, 14, []⟩,
      ⟨"string", true, "name", 15, 17,
        [⟨"\"", false, "", 15, 16, []⟩, ⟨"\"", false, "", 16, 17, []⟩]⟩,
      ⟨"statement_block", true, "body", 18, 20,
        [⟨"\x7b", false, "", 18, 19, []⟩, ⟨"\x7d", false, "", 19, 20, []⟩]⟩]⟩

def ambientDeclaration : Node :=
  ⟨"ambient_declaration", true, "", 0, 20,
    [⟨"declare", false, "", 0, 7, []⟩, unnamedModule]⟩

def ambientModuleTree : Node := ⟨"program", true, "", 0, 21, [ambientDeclaration]⟩

/-- The entity of the module has no name. -/
theorem exists_unnamed_ambientModule :
    ∃ e ∈ ambientModule.entities ambientModuleTree none, e.name = [] := by
  let declarationPlace : Place := ⟨ambientDeclaration, [0], []⟩
  let modulePlace : Place := ⟨unnamedModule, [0, 1], []⟩
  have hdeclaration : declarationPlace ∈ (Place.root ambientModuleTree).namedChildren :=
    List.mem_singleton.2 rfl
  have hmodule : modulePlace ∈ declarationPlace.namedChildren := List.mem_singleton.2 rfl
  obtain ⟨s, hv, hname⟩ : ∃ s,
      ambientModule.visit modulePlace ambientModule.rootScope none = .define s ∧
        s.entity.name = [] :=
    ⟨_, rfl, rfl⟩
  have hs : s ∈ ambientModule.walk (fun s => [s]) modulePlace ambientModule.rootScope none :=
    mem_walk_of_mem_sites_visit (hv ▸ List.mem_singleton.2 rfl)
  have hsites : s ∈ ambientModule.sites ambientModuleTree :=
    mem_walk_of_pass rfl hdeclaration (mem_walk_of_pass rfl hmodule hs)
  refine ⟨s.entity, ?_, hname⟩
  rw [entities_none]
  exact List.mem_map_of_mem hsites

end SourceFile

end CodeCatalog
