import CodeCatalog.Grammar.Rust
import CodeCatalog.Grammar.Script
import CodeCatalog.Proofs.Extraction.Walk
set_option autoImplicit false

/-!
# What a walk covers

A node for which its rule would give an entity is covered if it gives one, or if a node above it
does.  A walk that searches all named children covers every such node, and so does one that stops
below a node that gave an entity.  A wrapper, though, passes to the declaration inside it and to
nothing else: what stands beside that declaration, or in a wrapper that has none, is left out.
These parts are exactly what a walk does not cover.
-/

namespace CodeCatalog

/-! ## Ways -/

namespace Place

/-- The places that are reached from a place through named children. -/
inductive Reaches : Place → Place → Prop
  | refl (p : Place) : Reaches p p
  | step {p c q : Place} (hc : c ∈ p.namedChildren) (h : Reaches c q) : Reaches p q

theorem exists_way_of_mem_siblings {way : List Nat} {c : Place} :
    ∀ {ns : List Node} {i : Nat} {before : List Node}, c ∈ siblings way i before ns →
      ∃ j, i ≤ j ∧ c.way = way ++ [j]
  | [], _, _, h => by simp [siblings] at h
  | _ :: _, i, _, h => by
    rcases List.mem_cons.1 h with rfl | h
    · exact ⟨i, Nat.le_refl i, rfl⟩
    · obtain ⟨j, hj, hway⟩ := exists_way_of_mem_siblings h
      exact ⟨j, Nat.le_of_succ_le hj, hway⟩

/-- The way tells siblings apart. -/
theorem eq_of_mem_siblings {way : List Nat} {c d : Place} (hway : c.way = d.way) :
    ∀ {ns : List Node} {i : Nat} {before : List Node}, c ∈ siblings way i before ns →
      d ∈ siblings way i before ns → c = d
  | [], _, _, h, _ => by simp [siblings] at h
  | _ :: _, i, _, hc, hd => by
    -- A later sibling has a greater index than the first.
    have hlater : ∀ {e : Place} {j : Nat}, i + 1 ≤ j → e.way = way ++ [j] → e.way ≠ way ++ [i] := by
      intro e j hj he h
      rw [he, List.append_cancel_left_eq, List.cons.injEq] at h
      omega
    rcases List.mem_cons.1 hc with rfl | hc <;> rcases List.mem_cons.1 hd with rfl | hd
    · rfl
    · obtain ⟨j, hj, h⟩ := exists_way_of_mem_siblings hd
      exact absurd hway.symm (hlater hj h)
    · obtain ⟨j, hj, h⟩ := exists_way_of_mem_siblings hc
      exact absurd hway (hlater hj h)
    · exact eq_of_mem_siblings hway hc hd

theorem exists_way_of_mem_children {p c : Place} (h : c ∈ p.children) :
    ∃ i, c.way = p.way ++ [i] := by
  obtain ⟨i, _, hway⟩ := exists_way_of_mem_siblings h
  exact ⟨i, hway⟩

theorem way_prefix_of_mem_children {p c : Place} (h : c ∈ p.children) : p.way <+: c.way := by
  obtain ⟨i, hway⟩ := exists_way_of_mem_children h
  exact ⟨[i], hway.symm⟩

theorem way_prefix_of_mem_namedChildren {p c : Place} (h : c ∈ p.namedChildren) :
    p.way <+: c.way :=
  way_prefix_of_mem_children (mem_children_of_mem_namedChildren h)

theorem Reaches.way_prefix {p q : Place} (h : p.Reaches q) : p.way <+: q.way := by
  induction h with
  | refl => exact List.prefix_rfl
  | step hc _ ih => exact (way_prefix_of_mem_namedChildren hc).trans ih

/-- Two children above which there is one way are one child. -/
theorem eq_of_way_prefix {p c d : Place} {way : List Nat} (hc : c ∈ p.children)
    (hd : d ∈ p.children) (hcway : c.way <+: way) (hdway : d.way <+: way) : c = d := by
  obtain ⟨i, hi⟩ := exists_way_of_mem_children hc
  obtain ⟨j, hj⟩ := exists_way_of_mem_children hd
  have hlen : c.way.length = d.way.length := by simp [hi, hj]
  have hway : c.way = d.way :=
    (List.prefix_of_prefix_length_le hcway hdway (Nat.le_of_eq hlen)).eq_of_length hlen
  exact eq_of_mem_siblings hway hc hd

end Place

/-! ## Nodes with entities -/

/-- The way to the node whose rule made a site: the definition, or the declaration around the
declarator. -/
def Site.ruleWay (s : Site) : List Nat :=
  if s.rule.declarators.isEmpty then s.place.way else s.place.way.dropLast

namespace SourceFile

variable {f : SourceFile} {p q : Place} {scope : Scope} {wrapper : Option Wrapper}

/-- The name of a definition, if it has one that is not empty. -/
def definitionName? (f : SourceFile) (p : Place) (rule : Rule) : Option Text :=
  (match rule.nameRule with
    | some r => f.nameBy r p
    | none => (p.part? rule.nameFields rule.nameTypes).map fun (c : Place) => f.text c.node).bind
      Text.nonEmpty?

/-- The rule for a node would give an entity: the node is a definition with a name, or a
declaration with a declarator that has an acceptable name. -/
def IsInteresting (f : SourceFile) (p : Place) : Prop :=
  ∃ rule, f.grammar.rule? p.node.type = some rule ∧ rule.unwrapFields = [] ∧
    ((rule.declarators = [] ∧ ∃ name, f.definitionName? p rule = some name) ∨
      ∃ c ∈ p.namedChildren, c.node.type ∈ rule.declarators ∧
        ∃ nameNode, declaratorName? rule c = some nameNode)

theorem exists_definition?_iff {rule : Rule} (scope : Scope) (wrapper : Option Wrapper) :
    (∃ s, f.definition? p rule scope wrapper = some s) ↔
      ∃ name, f.definitionName? p rule = some name := by
  constructor
  · rintro ⟨s, h⟩
    obtain ⟨name, hname, _⟩ := Option.bind_eq_some_iff.1 h
    exact ⟨name, hname⟩
  · rintro ⟨name, hname⟩
    exact ⟨_, Option.bind_eq_some_iff.2 ⟨name, hname, rfl⟩⟩

theorem declaratorSites_ne_nil_iff {d : Declaration} {isFirst : Bool} {ps : List Place} :
    f.declaratorSites d isFirst ps ≠ [] ↔
      ∃ c ∈ ps, ∃ nameNode, declaratorName? d.rule c = some nameNode := by
  induction ps generalizing isFirst with
  | nil => simp [declaratorSites]
  | cons c rest ih =>
    cases hname : declaratorName? d.rule c with
    | none => simp [declaratorSites, hname, ih]
    | some nameNode => simp [declaratorSites, hname]

theorem declared_ne_nil_iff {rule : Rule} (scope : Scope) (wrapper : Option Wrapper) :
    f.declared p rule scope wrapper ≠ [] ↔
      ∃ c ∈ p.namedChildren, c.node.type ∈ rule.declarators ∧
        ∃ nameNode, declaratorName? rule c = some nameNode := by
  rw [declared, declaratorSites_ne_nil_iff]
  simp [and_assoc]

/-- A visited node has sites exactly if it is interesting, wherever it stands. -/
theorem sites_visit_ne_nil_iff :
    (f.visit p scope wrapper).sites ≠ [] ↔ f.IsInteresting p := by
  constructor
  · intro h
    obtain ⟨s, hs⟩ := List.exists_mem_of_ne_nil _ h
    obtain ⟨rule, hrule, hunwrap, ⟨hdefines, hs⟩ | ⟨_, hs⟩⟩ := mem_sites_visit hs
    · have hname := (exists_definition?_iff scope wrapper).1 ⟨s, hs⟩
      exact ⟨rule, hrule, hunwrap, Or.inl ⟨hdefines, hname⟩⟩
    · have hdeclarator := (declared_ne_nil_iff scope wrapper).1 (List.ne_nil_of_mem hs)
      exact ⟨rule, hrule, hunwrap, Or.inr hdeclarator⟩
  · rintro ⟨rule, hrule, hunwrap, ⟨hdefines, hname⟩ | hdeclarator⟩
    · obtain ⟨s, hs⟩ := (exists_definition?_iff scope wrapper).2 hname
      simp [visit, hrule, hunwrap, hdefines, hs, Visit.sites]
    · have hdeclares : rule.declarators ≠ [] := by
        obtain ⟨_, _, htype, _⟩ := hdeclarator
        exact List.ne_nil_of_mem htype
      have hsites : f.declared p rule scope wrapper ≠ [] :=
        (declared_ne_nil_iff scope wrapper).2 hdeclarator
      obtain ⟨s, rest, hs⟩ := List.exists_cons_of_ne_nil hsites
      simp [visit, hrule, hunwrap, hdeclares, hs, Visit.sites]

theorem ruleWay_of_mem_declaratorSites {s : Site} {d : Declaration} {isFirst : Bool}
    {ps : List Place} (hps : ∀ c ∈ ps, c ∈ d.place.children) (hdeclares : d.rule.declarators ≠ [])
    (h : s ∈ f.declaratorSites d isFirst ps) : s.ruleWay = d.place.way := by
  obtain ⟨first, c, hc, nameNode, _, rfl⟩ := exists_declarator_of_mem_declaratorSites h
  obtain ⟨i, hway⟩ := Place.exists_way_of_mem_children (hps c hc)
  have hrule : (f.declaratorSite d first c nameNode).rule.declarators.isEmpty = false := by
    simpa [declaratorSite] using hdeclares
  rw [Site.ruleWay, hrule]
  simp [declaratorSite, hway]

/-- The sites of a visited node are sites at that node. -/
theorem ruleWay_of_mem_sites_visit {s : Site} (h : s ∈ (f.visit p scope wrapper).sites) :
    s.ruleWay = p.way := by
  obtain ⟨rule, _, _, ⟨hdefines, hs⟩ | ⟨hdeclares, hs⟩⟩ := mem_sites_visit h
  · obtain ⟨name, _, hs⟩ := Option.bind_eq_some_iff.1 hs
    cases hs
    simp [Site.ruleWay, hdefines]
  · refine ruleWay_of_mem_declaratorSites (fun c hc => ?_) hdeclares hs
    exact Place.mem_children_of_mem_namedChildren (List.mem_of_mem_filter hc)

/-- The sites of a walk are at the node where it starts or below. -/
theorem way_prefix_of_mem_walk {s : Site} (h : s ∈ f.walk (fun s => [s]) p scope wrapper) :
    p.way <+: s.ruleWay := by
  induction p, scope, wrapper using walk.induct (f := f) with
  | case1 p scope wrapper w hv =>
    rw [walk_of_unwrap_none hv] at h
    exact absurd h List.not_mem_nil
  | case2 p scope wrapper inner w hv ih =>
    rw [walk_of_unwrap hv] at h
    exact (Place.way_prefix_of_mem_children (f.mem_children_of_visit_unwrap hv)).trans (ih h)
  | case3 p scope wrapper sites hv =>
    rw [walk_of_declare hv, List.flatMap_singleton'] at h
    have hsites : s ∈ (f.visit p scope wrapper).sites := by rwa [hv]
    exact ruleWay_of_mem_sites_visit hsites ▸ List.prefix_rfl
  | case4 p scope wrapper d hv ih =>
    have hd : d ∈ (f.visit p scope wrapper).sites := by simp [hv, Visit.sites]
    rw [walk_of_define hv] at h
    rcases List.mem_append.1 h with h | h
    · rw [List.mem_singleton.1 h]
      exact ruleWay_of_mem_sites_visit hd ▸ List.prefix_rfl
    · rw [walkBody] at h
      split at h
      · rename_i inner body _ hbody
        obtain ⟨c, hc, h⟩ := List.mem_flatMap.1 h
        have hbodyway := Place.way_prefix_of_mem_children (f.mem_children_of_visit_define hv hbody)
        have hcway := Place.way_prefix_of_mem_namedChildren hc
        exact (hbodyway.trans hcway).trans (ih inner body hbody ⟨c, hc⟩ h)
      · exact absurd h List.not_mem_nil
  | case5 p scope wrapper hv ih =>
    rw [walk_of_pass hv] at h
    obtain ⟨c, hc, h⟩ := List.mem_flatMap.1 h
    exact (Place.way_prefix_of_mem_namedChildren hc).trans (ih ⟨c, hc⟩ h)

/-- What is emitted as a declaration has sites. -/
theorem ne_nil_of_visit_declare {sites : List Site}
    (h : f.visit p scope wrapper = .declare sites) : sites ≠ [] := by
  cases Decides.of_visit h with
  | declare _ _ _ hsites => exact hsites

/-! ## What is left out -/

/-- A child that a wrapper leaves out: any named child but the declaration that it passes to. -/
def IsLeftOut (f : SourceFile) (p c : Place) : Prop :=
  c ∈ p.namedChildren ∧ ∃ rule, f.grammar.rule? p.node.type = some rule ∧ rule.unwrapFields ≠ [] ∧
    p.firstField? rule.unwrapFields ≠ some c

/-- A place in a part that a wrapper leaves out, where no node before that wrapper gives an
entity. -/
inductive IsSkipped (f : SourceFile) : Place → Place → Prop
  | leftOut {p c q : Place} (hc : f.IsLeftOut p c) (hq : c.Reaches q) : f.IsSkipped p q
  | further {p c q : Place} (hp : ¬ f.IsInteresting p) (hc : c ∈ p.namedChildren)
    (hout : ¬ f.IsLeftOut p c) (h : f.IsSkipped c q) : f.IsSkipped p q

/-- A node at or above a place gives an entity. -/
def IsCovered (f : SourceFile) (root : Node) (q : Place) : Prop :=
  ∃ s ∈ f.sites root, s.ruleWay <+: q.way

theorem IsSkipped.way_prefix (h : f.IsSkipped p q) : p.way <+: q.way := by
  induction h with
  | leftOut hc hq => exact (Place.way_prefix_of_mem_namedChildren hc.1).trans hq.way_prefix
  | further _ hc _ _ ih => exact (Place.way_prefix_of_mem_namedChildren hc).trans ih

/-- A wrapper passes to its declaration, whatever it stands in. -/
theorem visit_of_unwrapFields {rule : Rule} (hrule : f.grammar.rule? p.node.type = some rule)
    (hunwrap : rule.unwrapFields ≠ []) :
    f.visit p scope wrapper =
      .unwrap (p.firstField? rule.unwrapFields) (wrapper.getD ⟨p, rule.keepWrapper⟩) := by
  simp [visit, hrule, hunwrap]

/-- What passes on without sites is either no wrapper, or a wrapper that passes to a child. -/
theorem unwrapFields_of_visit {w : Wrapper} {inner : Option Place}
    (h : f.visit p scope wrapper = .unwrap inner w) :
    ∃ rule, f.grammar.rule? p.node.type = some rule ∧ rule.unwrapFields ≠ [] ∧
      p.firstField? rule.unwrapFields = inner := by
  cases Decides.of_visit h with
  | unwrap hrule hunwrap => exact ⟨_, hrule, hunwrap, rfl⟩

/-- The only named child that a wrapper does not leave out is the declaration that it passes to. -/
theorem eq_of_not_isLeftOut {w : Wrapper} {inner c : Place}
    (h : f.visit p scope wrapper = .unwrap (some inner) w) (hc : c ∈ p.namedChildren)
    (hout : ¬ f.IsLeftOut p c) : inner = c := by
  obtain ⟨rule, hrule, hunwrap, hinner⟩ := unwrapFields_of_visit h
  by_contra hne
  refine hout ⟨hc, rule, hrule, hunwrap, ?_⟩
  rw [hinner]
  exact fun h => hne (Option.some.inj h)

theorem not_isInteresting_of_visit (h : (f.visit p scope wrapper).sites = []) :
    ¬ f.IsInteresting p := fun hp => sites_visit_ne_nil_iff.2 hp h

/-- A node with a site covers all that is below it. -/
theorem exists_mem_walk_of_reaches (hq : p.Reaches q)
    (hsites : (f.visit p scope wrapper).sites ≠ []) :
    ∃ s ∈ f.walk (fun s => [s]) p scope wrapper, s.ruleWay <+: q.way := by
  obtain ⟨s, hs⟩ := List.exists_mem_of_ne_nil _ hsites
  exact ⟨s, mem_walk_of_mem_sites_visit hs, ruleWay_of_mem_sites_visit hs ▸ hq.way_prefix⟩

/-- A walk covers an interesting node unless it is in a part that is left out. -/
theorem isSkipped_or_exists_mem_walk (hq : p.Reaches q) (hinteresting : f.IsInteresting q) :
    f.IsSkipped p q ∨ ∃ s ∈ f.walk (fun s => [s]) p scope wrapper, s.ruleWay <+: q.way := by
  induction p, scope, wrapper using walk.induct (f := f) with
  | case1 p scope wrapper w hv =>
    have hp : ¬ f.IsInteresting p := not_isInteresting_of_visit (by rw [hv]; rfl)
    obtain ⟨rule, hrule, hunwrap, hinner⟩ := unwrapFields_of_visit hv
    cases hq with
    | refl => exact absurd hinteresting hp
    | step hc hq =>
      exact Or.inl (.leftOut ⟨hc, rule, hrule, hunwrap, by simp [hinner]⟩ hq)
  | case2 p scope wrapper inner w hv ih =>
    have hp : ¬ f.IsInteresting p := not_isInteresting_of_visit (by rw [hv]; rfl)
    rw [walk_of_unwrap hv]
    cases hq with
    | refl => exact absurd hinteresting hp
    | @step _ c _ hc hq =>
      by_cases hout : f.IsLeftOut p c
      · exact Or.inl (.leftOut hout hq)
      · obtain rfl : inner = c := eq_of_not_isLeftOut hv hc hout
        exact (ih hq).imp (.further hp hc hout) id
  | case3 p scope wrapper sites hv =>
    refine Or.inr (exists_mem_walk_of_reaches hq ?_)
    rw [hv]
    exact ne_nil_of_visit_declare hv
  | case4 p scope wrapper d hv ih =>
    refine Or.inr (exists_mem_walk_of_reaches hq ?_)
    rw [hv]
    exact List.cons_ne_nil d []
  | case5 p scope wrapper hv ih =>
    have hp : ¬ f.IsInteresting p := not_isInteresting_of_visit (by rw [hv]; rfl)
    rw [walk_of_pass hv]
    cases hq with
    | refl => exact absurd hinteresting hp
    | @step _ c _ hc hq =>
      by_cases hout : f.IsLeftOut p c
      · exact Or.inl (.leftOut hout hq)
      · rcases ih ⟨c, hc⟩ hq with hskipped | ⟨s, hs, hway⟩
        · exact Or.inl (.further hp hc hout hskipped)
        · exact Or.inr ⟨s, List.mem_flatMap.2 ⟨c, hc, hs⟩, hway⟩

/-- A site above a place is found only in the walk of the child that leads to the place. -/
theorem eq_of_mem_walk {c d : Place} {s : Site} {inner : Scope} {w : Option Wrapper}
    (hc : c ∈ p.children) (hd : d ∈ p.children) (hcq : c.way <+: q.way)
    (hs : s ∈ f.walk (fun s => [s]) d inner w) (hsq : s.ruleWay <+: q.way) : d = c :=
  Place.eq_of_way_prefix hd hc ((way_prefix_of_mem_walk hs).trans hsq) hcq

/-- Nothing is found in a part that is left out, nor above it on the way to it. -/
theorem not_prefix_of_isSkipped {s : Site} (hskipped : f.IsSkipped p q)
    (hs : s ∈ f.walk (fun s => [s]) p scope wrapper) : ¬ s.ruleWay <+: q.way := by
  intro hsq
  induction hskipped generalizing scope wrapper with
  | @leftOut p c q hout hq =>
    obtain ⟨hc, rule, hrule, hunwrap, hother⟩ := hout
    have hv : f.visit p scope wrapper = _ := visit_of_unwrapFields hrule hunwrap
    have hchild := Place.mem_children_of_mem_namedChildren hc
    cases hinner : p.firstField? rule.unwrapFields with
    | none =>
      rw [walk_of_unwrap_none (hinner ▸ hv)] at hs
      exact absurd hs List.not_mem_nil
    | some inner =>
      rw [walk_of_unwrap (hinner ▸ hv)] at hs
      obtain rfl : inner = c := eq_of_mem_walk hchild (Place.mem_children_of_firstField? hinner)
        hq.way_prefix hs hsq
      exact hother hinner
  | @further p c q hp hc hout hskipped ih =>
    have hchild := Place.mem_children_of_mem_namedChildren hc
    cases hv : f.visit p scope wrapper with
    | unwrap inner w =>
      cases inner with
      | none =>
        rw [walk_of_unwrap_none hv] at hs
        exact absurd hs List.not_mem_nil
      | some inner =>
        rw [walk_of_unwrap hv] at hs
        obtain rfl : inner = c := eq_of_mem_walk hchild (f.mem_children_of_visit_unwrap hv)
          hskipped.way_prefix hs hsq
        exact ih hs hsq
    | declare sites =>
      exact hp (sites_visit_ne_nil_iff.1 (by rw [hv]; exact ne_nil_of_visit_declare hv))
    | define d =>
      exact hp (sites_visit_ne_nil_iff.1 (by rw [hv]; exact List.cons_ne_nil d []))
    | pass =>
      rw [walk_of_pass hv] at hs
      obtain ⟨d, hd, hs⟩ := List.mem_flatMap.1 hs
      obtain rfl : d = c := eq_of_mem_walk hchild (Place.mem_children_of_mem_namedChildren hd)
        hskipped.way_prefix hs hsq
      exact ih hs hsq

/-- An interesting node that is reached through named children is covered exactly if it is not in
a part that a wrapper leaves out. -/
theorem isCovered_iff_not_isSkipped (f : SourceFile) (root : Node) {q : Place}
    (hq : (Place.root root).Reaches q) (hinteresting : f.IsInteresting q) :
    f.IsCovered root q ↔ ¬ f.IsSkipped (Place.root root) q := by
  constructor
  · rintro ⟨s, hs, hsq⟩ hskipped
    exact not_prefix_of_isSkipped hskipped hs hsq
  · intro hskipped
    exact (isSkipped_or_exists_mem_walk hq hinteresting).resolve_left hskipped

theorem IsSkipped.exists_wrapper (h : f.IsSkipped p q) :
    ∃ type rule, f.grammar.rule? type = some rule ∧ rule.unwrapFields ≠ [] := by
  induction h with
  | leftOut hc _ =>
    obtain ⟨_, rule, hrule, hunwrap, _⟩ := hc
    exact ⟨_, rule, hrule, hunwrap⟩
  | further _ _ _ _ ih => exact ih

/-- In a language without wrappers every interesting node is covered. -/
theorem isCovered_of_no_wrappers {root : Node}
    (hno : ∀ type rule, f.grammar.rule? type = some rule → rule.unwrapFields = [])
    (hq : (Place.root root).Reaches q) (hinteresting : f.IsInteresting q) :
    f.IsCovered root q := by
  refine (isSkipped_or_exists_mem_walk hq hinteresting).resolve_left fun hskipped => ?_
  obtain ⟨type, rule, hrule, hunwrap⟩ := hskipped.exists_wrapper
  exact hunwrap (hno type rule hrule)

/-- Rust has no wrappers. -/
example : ∀ r ∈ Grammar.rust.rules, r.2.unwrapFields = [] := by decide

/-! ## A default export -/

/-- A module whose default export is an object with a method. -/
def exportedView : SourceFile where
  grammar := Grammar.javascript
  source := Utf8.encode "export default { render() { return 1; } };\n"
  path := ⟨[], ["view.js"]⟩

/-- The method of the object. -/
def renderMethod : Node :=
  ⟨"method_definition", true, "", 17, 39,
    [⟨"property_identifier", true, "name", 17, 23, []⟩,
      ⟨"formal_parameters", true, "parameters", 23, 25,
        [⟨"(", false, "", 23, 24, []⟩, ⟨")", false, "", 24, 25, []⟩]⟩,
      ⟨"statement_block", true, "body", 26, 39,
        [⟨"\x7b", false, "", 26, 27, []⟩,
          ⟨"return_statement", true, "", 28, 37,
            [⟨"return", false, "", 28, 34, []⟩, ⟨"number", true, "", 35, 36, []⟩,
              ⟨";", false, "", 36, 37, []⟩]⟩,
          ⟨"\x7d", false, "", 38, 39, []⟩]⟩]⟩

/-- The exported object. -/
def exportedObject : Node :=
  ⟨"object", true, "value", 15, 41,
    [⟨"\x7b", false, "", 15, 16, []⟩, renderMethod, ⟨"\x7d", false, "", 40, 41, []⟩]⟩

/-- The export, which wraps no declaration. -/
def defaultExport : Node :=
  ⟨"export_statement", true, "", 0, 42,
    [⟨"export", false, "", 0, 6, []⟩, ⟨"default", false, "", 7, 14, []⟩, exportedObject,
      ⟨";", false, "", 41, 42, []⟩]⟩

def exportedViewTree : Node := ⟨"program", true, "", 0, 43, [defaultExport]⟩

/-- The place of the method. -/
def renderPlace : Place := ⟨renderMethod, [0, 2, 1], []⟩

theorem reaches_renderPlace : (Place.root exportedViewTree).Reaches renderPlace := by
  have hexport : ⟨defaultExport, [0], []⟩ ∈ (Place.root exportedViewTree).namedChildren :=
    List.mem_singleton.2 rfl
  have hobject : ⟨exportedObject, [0, 2], []⟩ ∈
      (⟨defaultExport, [0], []⟩ : Place).namedChildren := List.mem_singleton.2 rfl
  have hmethod : renderPlace ∈ (⟨exportedObject, [0, 2], []⟩ : Place).namedChildren :=
    List.mem_singleton.2 rfl
  exact .step hexport (.step hobject (.step hmethod (.refl _)))

theorem isInteresting_renderPlace : exportedView.IsInteresting renderPlace :=
  ⟨{ kind := Kind.method }, by decide, rfl, Or.inl ⟨rfl, "render", by decide⟩⟩

theorem isCovered_iff_renderPlace :
    (Place.root exportedViewTree).Reaches renderPlace ∧ exportedView.IsInteresting renderPlace ∧
      (exportedView.IsCovered exportedViewTree renderPlace ↔
        ¬ exportedView.IsSkipped (Place.root exportedViewTree) renderPlace) :=
  ⟨reaches_renderPlace, isInteresting_renderPlace,
    isCovered_iff_not_isSkipped exportedView exportedViewTree reaches_renderPlace
      isInteresting_renderPlace⟩

/-- The method of an object that is exported by default gives no entity, and neither does any node
above it. -/
theorem not_isCovered_renderPlace :
    (Place.root exportedViewTree).Reaches renderPlace ∧ exportedView.IsInteresting renderPlace ∧
      ¬ exportedView.IsCovered exportedViewTree renderPlace := by
  refine ⟨reaches_renderPlace, isInteresting_renderPlace, ?_⟩
  have hchildren : (Place.root exportedViewTree).namedChildren = [⟨defaultExport, [0], []⟩] := rfl
  have hroot : ∀ scope, exportedView.visit (Place.root exportedViewTree) scope none = .pass :=
    fun _ => rfl
  have hexport : ∀ scope, exportedView.visit ⟨defaultExport, [0], []⟩ scope none =
      .unwrap none ⟨⟨defaultExport, [0], []⟩, true⟩ := fun _ => rfl
  have hsites : exportedView.sites exportedViewTree = [] := by
    rw [sites, walk_of_pass (hroot _), hchildren, List.flatMap_singleton,
      walk_of_unwrap_none (hexport _)]
  rintro ⟨s, hs, _⟩
  rw [hsites] at hs
  exact absurd hs List.not_mem_nil

end SourceFile

end CodeCatalog
