import CodeCatalog.Proofs.Chunk.Cut
import CodeCatalog.Proofs.Extraction.Coverage
set_option autoImplicit false

/-!
# What a site says

A site is made either by the rule of a definition at its own node, or by the rule of a declaration
for one of the declarators below it.  The site keeps the scope that the node was visited in, and
the entity stands in the module and the type of that scope, also when it is cut into chunks.
-/

namespace CodeCatalog

theorem Text.nonEmpty?_eq_some_iff {t u : Text} : t.nonEmpty? = some u ↔ t = u ∧ u ≠ [] := by
  unfold nonEmpty?
  cases t with
  | nil => simp
  | cons g rest => simp +contextual [eq_comm]

namespace SourceFile

variable {f : SourceFile} {root : Node} {p : Place} {rule : Rule} {scope : Scope}
  {wrapper : Option Wrapper} {s : Site}

/-- The name that is shown for a definition. -/
def shownName (f : SourceFile) (rule : Rule) (p : Place) (name : Text) : Text :=
  match rule.labelRule with
  | some r => f.labelBy r p name
  | none => name

/-- The kind that a rule gives for a name, the scope apart. -/
def fixedKind (rule : Rule) (p : Place) (name : Text) : Text :=
  match rule.kindRule with
  | some r => kindBy r p name
  | none => rule.kind

/-- The site of a definition at a place, found in a scope. -/
structure Defines (f : SourceFile) (p : Place) (rule : Rule) (scope : Scope) (s : Site) :
    Prop where
  place_eq : s.place = p
  rule_eq : s.rule = rule
  scope_eq : s.scope = scope
  body_eq : s.body = p.part? rule.bodyFields rule.bodyTypes
  rawName_eq : f.definitionName? p rule = some s.rawName
  name_eq : s.entity.name = f.shownName rule p s.rawName
  kind_eq : s.entity.kind = if rule.kindRule.isNone && rule.callable then
      f.callableKind scope (s.body.map Place.node)
    else fixedKind rule p s.rawName
  context_eq : s.entity.context = f.context scope s.entity.snippet

/-- The site of a declarator of a declaration at a place, found in a scope. -/
structure Declares (f : SourceFile) (p : Place) (rule : Rule) (scope : Scope) (s : Site) :
    Prop where
  place_mem : s.place ∈ p.namedChildren
  type_mem : s.place.node.type ∈ rule.declarators
  rule_eq : s.rule = rule
  scope_eq : s.scope = scope
  body_eq : s.body = none
  rawName_eq : (declaratorName? rule s.place).map (fun c => f.text c.node) = some s.rawName
  name_eq : s.entity.name = s.rawName
  kind_eq : s.entity.kind = fixedKind rule p s.rawName ∨
    ∃ value, s.entity.kind = f.callableKind scope (some value)
  context_eq : s.entity.context = f.context scope s.entity.snippet

/-- A definition has a name in the source. -/
theorem Defines.rawName_ne_nil (h : f.Defines p rule scope s) : s.rawName ≠ [] := by
  obtain ⟨name, -, hname⟩ := Option.bind_eq_some_iff.1 h.rawName_eq
  exact (Text.nonEmpty?_eq_some_iff.1 hname).2

theorem defines_of_definition? (h : f.definition? p rule scope wrapper = some s) :
    f.Defines p rule scope s := by
  unfold definition? at h
  obtain ⟨rawName, hname, h⟩ := Option.bind_eq_some_iff.1 h
  cases h
  refine ⟨rfl, rfl, rfl, rfl, hname, rfl, ?_, rfl⟩
  cases hkind : rule.kindRule with
  | none => simp [hkind, fixedKind]
  | some r => simp [hkind, fixedKind]

theorem kind_declaratorSite (d : Declaration) (isFirst : Bool) (declarator nameNode : Place) :
    (f.declaratorSite d isFirst declarator nameNode).entity.kind =
        fixedKind d.rule d.place (f.text nameNode.node) ∨
      ∃ value, (f.declaratorSite d isFirst declarator nameNode).entity.kind =
        f.callableKind d.scope (some value) := by
  simp only [declaratorSite, declaratorHead]
  split
  · rename_i v _
    exact .inr ⟨v.node, rfl⟩
  · exact .inl rfl

theorem declares_of_mem_declared (h : s ∈ f.declared p rule scope wrapper) :
    f.Declares p rule scope s := by
  obtain ⟨first, c, hc, nameNode, hname, rfl⟩ := exists_declarator_of_mem_declaratorSites h
  obtain ⟨hc, htype⟩ := List.mem_filter.1 hc
  have hrawName : (declaratorName? rule c).map (fun c => f.text c.node) =
      some (f.text nameNode.node) := congrArg (Option.map _) hname
  exact ⟨hc, List.contains_iff_mem.1 htype, rfl, rfl, rfl, hrawName, rfl,
    kind_declaratorSite _ first c nameNode, rfl⟩

/-- A site of a visited node is a definition at that node, or a declarator below it. -/
theorem defines_or_declares (h : s ∈ (f.visit p scope wrapper).sites) :
    ∃ rule, f.grammar.rule? p.node.type = some rule ∧ rule.unwrapFields = [] ∧
      ((rule.declarators = [] ∧ f.Defines p rule scope s) ∨
        (rule.declarators ≠ [] ∧ f.Declares p rule scope s)) := by
  obtain ⟨rule, hrule, hunwrap, ⟨hdefines, hs⟩ | ⟨hdeclares, hs⟩⟩ := mem_sites_visit h
  · exact ⟨rule, hrule, hunwrap, .inl ⟨hdefines, defines_of_definition? hs⟩⟩
  · exact ⟨rule, hrule, hunwrap, .inr ⟨hdeclares, declares_of_mem_declared hs⟩⟩

/-- Only a definition has a body, which is one of its children. -/
theorem body_mem_children (h : s ∈ (f.visit p scope wrapper).sites) {body : Place}
    (hbody : s.body = some body) : body ∈ s.place.children := by
  obtain ⟨rule, -, -, ⟨-, hs⟩ | ⟨-, hs⟩⟩ := defines_or_declares h
  · rw [hs.body_eq] at hbody
    rw [hs.place_eq]
    exact Place.mem_children_of_part? hbody
  · rw [hs.body_eq] at hbody
    cases hbody

theorem defines_of_visit (h : f.visit p scope wrapper = .define s) :
    ∃ rule, f.grammar.rule? p.node.type = some rule ∧ rule.unwrapFields = [] ∧
      rule.declarators = [] ∧ f.Defines p rule scope s := by
  cases Decides.of_visit h with
  | define hrule hunwrap hdefines hsite =>
    exact ⟨_, hrule, hunwrap, hdefines, defines_of_definition? hsite⟩

/-! ## The entities of a site -/

theorem context_of_mem_sites (h : s ∈ f.sites root) :
    s.entity.context = f.context s.scope s.entity.snippet := by
  obtain ⟨p, scope, wrapper, -, hsite⟩ := exists_visited_of_mem_sites h
  obtain ⟨rule, -, -, ⟨-, hs⟩ | ⟨-, hs⟩⟩ := defines_or_declares hsite
  · rw [hs.scope_eq]
    exact hs.context_eq
  · rw [hs.scope_eq]
    exact hs.context_eq

/-- The entities of a site, whole or chunks, stand in its scope. -/
theorem scope_of_mem_split (h : s ∈ f.sites root) {bound : Option Int} {e : Entity Text}
    (he : e ∈ s.entity.split bound) :
    e.context.moduleName = s.scope.moduleName ∧ e.context.enclosingType = s.scope.typeName := by
  have hcontext := context_of_mem_sites h
  rcases Entity.eq_or_isPartOf_of_mem_split he with rfl | hpart
  · rw [hcontext]
    exact ⟨rfl, rfl⟩
  · rw [hpart.moduleName, hpart.enclosingType, hcontext]
    exact ⟨rfl, rfl⟩

end SourceFile

end CodeCatalog
