import CodeCatalog.Grammar.Supported
import CodeCatalog.Proofs.Extraction.Scoping
set_option autoImplicit false

/-!
# The kinds of functions

A function is a method inside a type, and a function or a component outside.  The rules of the
supported languages leave this to the scope, and name no other kind of functions, with one
exception: the rule for the methods of TypeScript and JavaScript says itself what they are.  So a
method has a type around it, unless it is such a method and stands in an object or in a class
without an entity.
-/

namespace CodeCatalog

/-! ## Rules -/

/-- The kind of a function. -/
def Kind.IsFunction (kind : Text) : Prop :=
  kind = Kind.function ∨ kind = Kind.component ∨ kind = Kind.method

instance (kind : Text) : Decidable (Kind.IsFunction kind) :=
  inferInstanceAs (Decidable (_ ∨ _))

namespace Grammar

theorem mem_rules_of_rule? {g : Grammar} {type : String} {rule : Rule}
    (h : g.rule? type = some rule) : (type, rule) ∈ g.rules := by
  obtain ⟨before, after, hrules, -⟩ := List.lookup_eq_some_iff.1 h
  rw [hrules]
  exact List.mem_append_right _ List.mem_cons_self

/-- In the supported languages a rule that names the kind of a function defines its node, and either
leaves the kind to the scope or is that for the methods of TypeScript and JavaScript. -/
theorem rules_supported : ∀ g ∈ supported, ∀ r ∈ g.rules,
    r.2.kindRule = none ∧ Kind.IsFunction r.2.kind → r.2.declarators = [] ∧
      (r.2.callable = true ∨ r.1 = "method_definition" ∧ r.2.kind = Kind.method) := by
  decide

end Grammar

namespace SourceFile

variable {f : SourceFile} {root : Node} {p : Place} {rule : Rule} {scope : Scope} {s t : Site}

/-- A binding is no function. -/
theorem not_isFunction_kindBy (r : KindRule) (p : Place) (name : Text) :
    ¬ Kind.IsFunction (kindBy r p name) := by
  have hconstant : ¬ Kind.IsFunction Kind.constant := by decide
  have hvariable : ¬ Kind.IsFunction Kind.variableBinding := by decide
  cases r with
  | keyword =>
    simp only [kindBy]
    split
    · split
      · exact hconstant
      · exact hvariable
    · exact hvariable
  | capitals =>
    simp only [kindBy, capitalsKind]
    split
    · exact hconstant
    · exact hvariable

/-- What is called is a method exactly inside a type. -/
theorem callableKind_cases (f : SourceFile) (scope : Scope) (body : Option Node) :
    (scope.inType = true ∧ f.callableKind scope body = Kind.method) ∨
      (scope.inType = false ∧ (f.callableKind scope body = Kind.function ∨
        f.callableKind scope body = Kind.component)) := by
  unfold callableKind
  split
  · rename_i hin
    exact .inl ⟨hin, rfl⟩
  · rename_i hout
    refine .inr ⟨by simpa using hout, ?_⟩
    split
    · exact .inr rfl
    · exact .inl rfl

/-! ## Scopes -/

/-- A site that holds a place is a definition, so it has a name. -/
theorem rawName_ne_nil_of_holds {q : Place} (hs : s ∈ f.sites root) (h : s.Holds q) :
    s.rawName ≠ [] := by
  obtain ⟨body, hbody, -⟩ := h
  obtain ⟨p, scope, wrapper, -, hsite⟩ := exists_visited_of_mem_sites hs
  obtain ⟨rule, -, -, ⟨-, hs⟩ | ⟨-, hs⟩⟩ := defines_or_declares hsite
  · exact hs.rawName_ne_nil
  · rw [hs.body_eq] at hbody
    cases hbody

/-- A site is inside a type exactly if its scope names one. -/
theorem inType_eq_isSome (ht : t ∈ f.sites root) : t.scope.inType = t.scope.typeName.isSome := by
  have hname : ∀ name, t.scope.typeName = some name → name ≠ [] := by
    intro name h
    rw [typeName_of_mem_sites ht] at h
    obtain ⟨s, hs, rfl⟩ := Option.map_eq_some_iff.1 h
    obtain ⟨hs, hholds⟩ := List.mem_filter.1 (List.mem_of_getLast? hs)
    rw [decide_eq_true_eq] at hholds
    exact rawName_ne_nil_of_holds hs hholds.2
  rw [Scope.inType]
  cases htype : t.scope.typeName with
  | none => rfl
  | some name => simp [Text.nonEmpty?_eq_some_iff.2 ⟨rfl, hname name htype⟩]

/-! ## Sites -/

/-- The kind that a rule of a supported language gives is that of no function, unless the rule
defines its node, and leaves the kind to the scope or is that for the methods of TypeScript and
JavaScript. -/
theorem fixedKind_cases (hf : f.grammar ∈ Grammar.supported)
    (hrule : f.grammar.rule? p.node.type = some rule) (q : Place) (name : Text) :
    ¬ Kind.IsFunction (fixedKind rule q name) ∨ rule.kindRule = none ∧ rule.declarators = [] ∧
      (rule.callable = true ∨
        p.node.type = "method_definition" ∧ fixedKind rule q name = Kind.method) := by
  cases hkind : rule.kindRule with
  | some r =>
    refine .inl ?_
    rw [fixedKind, hkind]
    exact not_isFunction_kindBy r q name
  | none =>
    have hfixed : fixedKind rule q name = rule.kind := by rw [fixedKind, hkind]
    rw [hfixed]
    by_cases hfunction : Kind.IsFunction rule.kind
    · have hmem := Grammar.mem_rules_of_rule? hrule
      exact .inr ⟨rfl, Grammar.rules_supported f.grammar hf _ hmem ⟨hkind, hfunction⟩⟩
    · exact .inl hfunction

/-- The kind of a site is given by its scope, or is that of no function, or the site is a method of
TypeScript or JavaScript. -/
theorem kind_cases_of_mem_sites (hf : f.grammar ∈ Grammar.supported) (ht : t ∈ f.sites root) :
    (∃ body, t.entity.kind = f.callableKind t.scope body) ∨ ¬ Kind.IsFunction t.entity.kind ∨
      t.place.node.type = "method_definition" ∧ t.entity.kind = Kind.method := by
  obtain ⟨p, scope, wrapper, -, hsite⟩ := exists_visited_of_mem_sites ht
  obtain ⟨rule, hrule, -, ⟨-, hs⟩ | ⟨hdeclares, hs⟩⟩ := defines_or_declares hsite
  · have hfixed := fixedKind_cases hf hrule p t.rawName
    have hkind := hs.kind_eq
    rw [hs.scope_eq, hs.place_eq]
    split at hkind
    · exact .inl ⟨_, hkind⟩
    · rename_i hscope
      rw [← hkind] at hfixed
      rcases hfixed with hfixed | ⟨hnone, -, hcallable | hmethod⟩
      · exact .inr (.inl hfixed)
      · exact absurd (by simp [hnone, hcallable]) hscope
      · exact .inr (.inr hmethod)
  · rw [hs.scope_eq]
    rcases hs.kind_eq with hkind | ⟨value, hkind⟩
    · have hfixed := fixedKind_cases hf hrule p t.rawName
      rw [← hkind] at hfixed
      exact .inr (.inl (hfixed.resolve_right fun h => hdeclares h.2.1))
    · exact .inl ⟨some value, hkind⟩

theorem kinds_of_mem_split (hf : f.grammar ∈ Grammar.supported) (ht : t ∈ f.sites root)
    {bound : Option Int} {e : Entity Text} (he : e ∈ t.entity.split bound) :
    (e.kind = Kind.function ∨ e.kind = Kind.component → e.context.enclosingType = none) ∧
      (e.kind = Kind.method → (e.context.enclosingType = none ↔
        t.place.node.type = "method_definition" ∧
          f.containersAround root .typeScope t.place = [])) := by
  have hkind : e.kind = t.entity.kind := by
    rcases Entity.eq_or_isPartOf_of_mem_split he with rfl | hpart
    · rfl
    · exact hpart.kind
  have htype : t.scope.typeName = none ↔ f.containersAround root .typeScope t.place = [] := by
    rw [typeName_of_mem_sites ht, Option.map_eq_none_iff, List.getLast?_eq_none_iff]
  have hin := inType_eq_isSome ht
  have hfree : ¬ (Kind.method = Kind.function ∨ Kind.method = Kind.component) := by decide
  rw [hkind, (scope_of_mem_split ht he).2, ← htype]
  rcases kind_cases_of_mem_sites hf ht with ⟨body, hcall⟩ | hnone | ⟨hnode, hmethod⟩
  · rw [hcall]
    rcases f.callableKind_cases t.scope body with ⟨hinside, hmethod⟩ | ⟨houtside, hkinds⟩
    · have hsome : t.scope.typeName ≠ none := by
        rw [hin] at hinside
        exact Option.isSome_iff_ne_none.1 hinside
      rw [hmethod]
      exact ⟨fun h => absurd h hfree, fun _ => ⟨fun h => absurd h hsome, fun h => absurd h.2 hsome⟩⟩
    · have htypeName : t.scope.typeName = none := by simpa [hin] using houtside
      refine ⟨fun _ => htypeName, fun h => ?_⟩
      rw [h] at hkinds
      exact absurd hkinds hfree
  · exact ⟨fun h => absurd (h.imp_right .inl) hnone, fun h => absurd (.inr (.inr h)) hnone⟩
  · rw [hmethod]
    exact ⟨fun h => absurd h hfree, fun _ => ⟨fun h => ⟨hnode, h⟩, fun h => h.2⟩⟩

/-- In the supported languages a function or a component has no type around it.  A method has one,
unless it is a method of TypeScript or JavaScript that lies in the body of no type. -/
theorem kinds_inTypes (f : SourceFile) (hf : f.grammar ∈ Grammar.supported) (root : Node)
    (bound : Option Int) :
    f.entities root bound = ((f.sites root).flatMap fun t => t.entity.split bound) ∧
      ∀ t ∈ f.sites root, ∀ e ∈ t.entity.split bound,
        (e.kind = Kind.function ∨ e.kind = Kind.component → e.context.enclosingType = none) ∧
        (e.kind = Kind.method → (e.context.enclosingType = none ↔
          t.place.node.type = "method_definition" ∧
            f.containersAround root .typeScope t.place = [])) :=
  ⟨f.entities_eq_flatMap root bound, fun _ ht _ he => kinds_of_mem_split hf ht he⟩

theorem kinds_inTypes_nestedPeer :
    nestedPeer.grammar ∈ Grammar.supported ∧
      ∃ t ∈ nestedPeer.sites nestedPeerTree, t.rawName = "ping" ∧
        t.entity.kind = Kind.method ∧ t.entity.context.enclosingType ≠ none := by
  obtain ⟨m, b, t, hsites, htName, htNode, htKind, -⟩ := exists_sites_nestedPeer
  have hf : nestedPeer.grammar ∈ Grammar.supported := List.mem_cons_self
  have ht : t ∈ nestedPeer.sites nestedPeerTree := by simp [hsites]
  obtain ⟨-, hkinds⟩ := kinds_inTypes nestedPeer hf nestedPeerTree none
  have hmethod := (hkinds t ht t.entity (List.mem_singleton_self _)).2 htKind
  refine ⟨hf, t, ht, htName, htKind, fun hnone => ?_⟩
  have hnode := (hmethod.1 hnone).1
  rw [htNode] at hnode
  exact absurd hnode (by decide)

/-! ## A method in an object -/

/-- A call that is given an object with a method. -/
def mountedView : SourceFile where
  grammar := Grammar.javascript
  source := Utf8.encode "foo(\x7b m() \x7b\x7d \x7d);\n"
  path := ⟨[], ["view.js"]⟩

def objectMethod : Node :=
  ⟨"method_definition", true, "", 6, 12,
    [⟨"property_identifier", true, "name", 6, 7, []⟩,
      ⟨"formal_parameters", true, "parameters", 7, 9,
        [⟨"(", false, "", 7, 8, []⟩, ⟨")", false, "", 8, 9, []⟩]⟩,
      ⟨"statement_block", true, "body", 10, 12,
        [⟨"\x7b", false, "", 10, 11, []⟩, ⟨"\x7d", false, "", 11, 12, []⟩]⟩]⟩

def objectLiteral : Node :=
  ⟨"object", true, "", 4, 14,
    [⟨"\x7b", false, "", 4, 5, []⟩, objectMethod, ⟨"\x7d", false, "", 13, 14, []⟩]⟩

def callArguments : Node :=
  ⟨"arguments", true, "arguments", 3, 15,
    [⟨"(", false, "", 3, 4, []⟩, objectLiteral, ⟨")", false, "", 14, 15, []⟩]⟩

def callStatement : Node :=
  ⟨"expression_statement", true, "", 0, 16,
    [⟨"call_expression", true, "", 0, 15,
        [⟨"identifier", true, "function", 0, 3, []⟩, callArguments]⟩,
      ⟨";", false, "", 15, 16, []⟩]⟩

def mountedViewTree : Node := ⟨"program", true, "", 0, 17, [callStatement]⟩

/-- The method of an object has the kind of a method, and no type around it. -/
theorem exists_method_outside_types :
    mountedView.grammar ∈ Grammar.supported ∧ ∃ e ∈ mountedView.entities mountedViewTree none,
      e.kind = Kind.method ∧ e.context.enclosingType = none := by
  let statementPlace : Place := ⟨callStatement, [0], []⟩
  let callPlace : Place := ⟨⟨"call_expression", true, "", 0, 15,
    [⟨"identifier", true, "function", 0, 3, []⟩, callArguments]⟩, [0, 0], []⟩
  let argumentsPlace : Place :=
    ⟨callArguments, [0, 0, 1], [⟨"identifier", true, "function", 0, 3, []⟩]⟩
  let objectPlace : Place := ⟨objectLiteral, [0, 0, 1, 1], []⟩
  let methodPlace : Place := ⟨objectMethod, [0, 0, 1, 1, 1], []⟩
  have hstatement : statementPlace ∈ (Place.root mountedViewTree).namedChildren :=
    List.mem_singleton.2 rfl
  have hcall : callPlace ∈ statementPlace.namedChildren := List.mem_singleton.2 rfl
  have harguments : argumentsPlace ∈ callPlace.namedChildren :=
    List.mem_cons_of_mem _ (List.mem_singleton.2 rfl)
  have hobject : objectPlace ∈ argumentsPlace.namedChildren := List.mem_singleton.2 rfl
  have hmethod : methodPlace ∈ objectPlace.namedChildren := List.mem_singleton.2 rfl
  obtain ⟨s, hv, hkind, htype⟩ : ∃ s,
      mountedView.visit methodPlace mountedView.rootScope none = .define s ∧
        s.entity.kind = Kind.method ∧ s.entity.context.enclosingType = none :=
    ⟨_, rfl, rfl, rfl⟩
  have hs : s ∈ mountedView.walk (fun s => [s]) methodPlace mountedView.rootScope none :=
    mem_walk_of_mem_sites_visit (hv ▸ List.mem_singleton.2 rfl)
  have hsites : s ∈ mountedView.sites mountedViewTree :=
    mem_walk_of_pass rfl hstatement <| mem_walk_of_pass rfl hcall <|
      mem_walk_of_pass rfl harguments <| mem_walk_of_pass rfl hobject <|
        mem_walk_of_pass rfl hmethod hs
  refine ⟨by decide, s.entity, ?_, hkind, htype⟩
  rw [entities_none]
  exact List.mem_map_of_mem hsites

end SourceFile

end CodeCatalog
