import Mathlib.Data.List.Flatten
import Mathlib.Data.List.Nodup
import CodeCatalog.Proofs.Extraction.Nesting
import CodeCatalog.Proofs.Extraction.Site
set_option autoImplicit false

/-!
# Sites in the order of a tree

In pre-order a place comes before those below it, and these come child by child.  A walk visits
no place twice and never goes back, so its sites are a part of the pre-order of the tree.  Below a
site it goes on only in the body of a container, so a site that lies below another one lies in the
body of that.
-/

namespace CodeCatalog

/-! ## Pre-order -/

namespace Place

/-- The places of a tree in pre-order. -/
def preorder (p : Place) : List Place :=
  p :: p.children.attach.flatMap fun c => preorder c.1
termination_by sizeOf p.node
decreasing_by exact sizeOf_lt_of_mem_children c.2

/-- The places below a place in pre-order. -/
def below (p : Place) : List Place := p.children.flatMap preorder

/-- The way to a place goes on from that to another one. -/
def Encloses (p q : Place) : Prop := p.way <+: q.way ∧ p.way ≠ q.way

instance (p q : Place) : Decidable (p.Encloses q) := inferInstanceAs (Decidable (_ ∧ _))

variable {p q r c d : Place}

theorem preorder_eq_cons (p : Place) : p.preorder = p :: p.below := by
  rw [preorder, below]
  simp

theorem mem_preorder_self (p : Place) : p ∈ p.preorder := by
  rw [preorder_eq_cons]
  exact List.mem_cons_self

theorem mem_below : q ∈ p.below ↔ ∃ c ∈ p.children, q ∈ c.preorder := List.mem_flatMap

/-- What holds of a place if it holds of its children holds of every place. -/
theorem induction_children {motive : Place → Prop}
    (step : ∀ p, (∀ c ∈ p.children, motive c) → motive p) (p : Place) : motive p :=
  step p fun c _ => induction_children step c
termination_by sizeOf p.node
decreasing_by exact sizeOf_lt_of_mem_children ‹_›

/-- The nodes in pre-order are those of the tree. -/
theorem map_node_preorder (p : Place) : p.preorder.map node = p.node.nodes := by
  induction p using induction_children with
  | step p ih =>
    have hchildren : p.children.map (fun c => c.preorder.map node) =
        p.children.map fun c => c.node.nodes := List.map_congr_left ih
    rw [preorder_eq_cons, Node.nodes_eq_cons, List.map_cons, below, List.map_flatMap,
      Node.nodesOf_eq_flatMap, ← map_node_children, List.flatMap_def, hchildren, List.flatMap_map,
      List.flatMap_def]

theorem way_prefix_of_mem_preorder (h : q ∈ p.preorder) : p.way <+: q.way := by
  induction p using induction_children with
  | step p ih =>
    rw [preorder_eq_cons] at h
    rcases List.mem_cons.1 h with rfl | h
    · exact List.prefix_rfl
    · obtain ⟨c, hc, hq⟩ := mem_below.1 h
      exact (way_prefix_of_mem_children hc).trans (ih c hc hq)

theorem mem_preorder_trans (hq : q ∈ p.preorder) (hr : r ∈ q.preorder) : r ∈ p.preorder := by
  induction p using induction_children with
  | step p ih =>
    rw [preorder_eq_cons] at hq
    rcases List.mem_cons.1 hq with rfl | hq
    · exact hr
    · obtain ⟨c, hc, hcq⟩ := mem_below.1 hq
      rw [preorder_eq_cons]
      exact List.mem_cons_of_mem p (mem_below.2 ⟨c, hc, ih c hc hcq⟩)

theorem mem_below_of_mem_children (hc : c ∈ p.children) : c ∈ p.below :=
  mem_below.2 ⟨c, hc, c.mem_preorder_self⟩

theorem mem_preorder_of_mem_below (hq : q ∈ p.below) : q ∈ p.preorder := by
  rw [preorder_eq_cons]
  exact List.mem_cons_of_mem p hq

theorem mem_preorder_of_mem_children (hq : q ∈ p.preorder) (hc : c ∈ q.children) :
    c ∈ p.preorder :=
  mem_preorder_trans hq (mem_preorder_of_mem_below (mem_below_of_mem_children hc))

/-- A place of a tree is that of the root, or a child of another one. -/
theorem eq_or_mem_children_of_mem_preorder (h : q ∈ p.preorder) :
    q = p ∨ ∃ r ∈ p.preorder, q ∈ r.children := by
  induction p using induction_children with
  | step p ih =>
    rw [preorder_eq_cons] at h
    rcases List.mem_cons.1 h with rfl | h
    · exact .inl rfl
    · obtain ⟨c, hc, hq⟩ := mem_below.1 h
      rcases ih c hc hq with rfl | ⟨r, hr, hqr⟩
      · exact .inr ⟨p, p.mem_preorder_self, hc⟩
      · have hcp : c ∈ p.preorder := mem_preorder_of_mem_children p.mem_preorder_self hc
        exact .inr ⟨r, mem_preorder_trans hcp hr, hqr⟩

theorem node_mem_nodes_of_mem_preorder (h : q ∈ p.preorder) : q.node ∈ p.node.nodes := by
  rw [← map_node_preorder]
  exact List.mem_map_of_mem h

theorem length_way_of_mem_children (h : c ∈ p.children) : c.way.length = p.way.length + 1 := by
  obtain ⟨i, hway⟩ := exists_way_of_mem_children h
  simp [hway]

theorem way_prefix_of_mem_below (h : q ∈ p.below) : p.way <+: q.way := by
  obtain ⟨c, hc, hq⟩ := mem_below.1 h
  exact (way_prefix_of_mem_children hc).trans (way_prefix_of_mem_preorder hq)

theorem length_way_lt_of_mem_below (h : q ∈ p.below) : p.way.length < q.way.length := by
  obtain ⟨c, hc, hq⟩ := mem_below.1 h
  have hlength := length_way_of_mem_children hc
  have hle := (way_prefix_of_mem_preorder hq).length_le
  omega

theorem pairwise_way_siblings (way : List Nat) (i : Nat) (before ns : List Node) :
    (siblings way i before ns).Pairwise fun c d => c.way ≠ d.way := by
  induction ns generalizing i before with
  | nil => exact .nil
  | cons n rest ih =>
    refine List.pairwise_cons.2 ⟨fun d hd heq => ?_, ih _ _⟩
    obtain ⟨j, hj, hway⟩ := exists_way_of_mem_siblings hd
    rw [hway, List.append_cancel_left_eq, List.cons.injEq] at heq
    omega

theorem pairwise_way_children (p : Place) : p.children.Pairwise fun c d => c.way ≠ d.way :=
  pairwise_way_siblings _ _ _ _

/-- No way leads to two places of a tree. -/
theorem nodup_map_way_preorder (p : Place) : (p.preorder.map way).Nodup := by
  induction p using induction_children with
  | step p ih =>
    rw [preorder_eq_cons, List.map_cons, List.nodup_cons]
    constructor
    · rw [List.mem_map]
      rintro ⟨q, hq, heq⟩
      exact absurd (congrArg List.length heq) (Nat.ne_of_gt (length_way_lt_of_mem_below hq))
    · rw [below, List.map_flatMap, List.nodup_flatMap]
      refine ⟨ih, p.pairwise_way_children.imp_of_mem fun {c d} hc hd hne way hcway hdway => ?_⟩
      obtain ⟨q, hq, rfl⟩ := List.mem_map.1 hcway
      obtain ⟨r, hr, heq⟩ := List.mem_map.1 hdway
      have hdq : d.way <+: q.way := heq ▸ way_prefix_of_mem_preorder hr
      have hcd : c = d := eq_of_way_prefix hc hd (way_prefix_of_mem_preorder hq) hdq
      exact hne (congrArg way hcd)

theorem encloses_of_mem_below (h : q ∈ p.below) : p.Encloses q := by
  refine ⟨way_prefix_of_mem_below h, fun heq => ?_⟩
  exact absurd (congrArg List.length heq) (Nat.ne_of_lt (length_way_lt_of_mem_below h))

/-- In one tree the places below a place are those with a way through it. -/
theorem mem_below_iff_encloses (hq : q ∈ p.preorder) (hr : r ∈ p.preorder) :
    r ∈ q.below ↔ q.Encloses r := by
  refine ⟨encloses_of_mem_below, ?_⟩
  rintro ⟨hway, hne⟩
  induction p using induction_children with
  | step p ih =>
    rw [preorder_eq_cons] at hq hr
    rcases List.mem_cons.1 hq with rfl | hq
    · rcases List.mem_cons.1 hr with rfl | hr
      · exact absurd rfl hne
      · exact hr
    · obtain ⟨c, hc, hcq⟩ := mem_below.1 hq
      have hcr : c.way <+: r.way := (way_prefix_of_mem_preorder hcq).trans hway
      rcases List.mem_cons.1 hr with rfl | hr
      · have hlength := length_way_of_mem_children hc
        have hle := hcr.length_le
        omega
      · obtain ⟨d, hd, hdr⟩ := mem_below.1 hr
        obtain rfl := eq_of_way_prefix hc hd hcr (way_prefix_of_mem_preorder hdr)
        exact ih c hc hcq hdr

/-- No place comes before one that it lies below. -/
theorem pairwise_preorder (p : Place) : p.preorder.Pairwise fun q r => q ∉ r.below := by
  induction p using induction_children with
  | step p ih =>
    rw [preorder_eq_cons]
    refine List.pairwise_cons.2 ⟨fun r hr hpr => ?_, ?_⟩
    · have hlt := length_way_lt_of_mem_below hr
      have hgt := length_way_lt_of_mem_below hpr
      omega
    · refine List.pairwise_flatMap.2 ⟨ih, p.pairwise_way_children.imp_of_mem ?_⟩
      intro c d hc hd hne q hq r hr hqr
      have hdq := (way_prefix_of_mem_preorder hr).trans (way_prefix_of_mem_below hqr)
      have hcd : c = d := eq_of_way_prefix hc hd (way_prefix_of_mem_preorder hq) hdq
      exact hne (congrArg way hcd)

theorem children_sublist_below (p : Place) : p.children.Sublist p.below := by
  rw [below]
  induction p.children with
  | nil => exact .slnil
  | cons c rest ih =>
    rw [List.flatMap_cons, preorder_eq_cons, List.cons_append]
    exact (ih.trans (List.sublist_append_right _ _)).cons_cons c

theorem preorder_sublist_below (h : c ∈ p.children) : c.preorder.Sublist p.below := by
  have hone := (List.singleton_sublist.2 h).flatMap preorder
  rwa [List.flatMap_singleton] at hone

theorem below_sublist_preorder (p : Place) : p.below.Sublist p.preorder := by
  rw [preorder_eq_cons]
  exact List.sublist_cons_self _ _

end Place

/-! ## Sites -/

namespace SourceFile

variable {f : SourceFile} {root : Node} {p q : Place} {scope : Scope} {wrapper : Option Wrapper}

theorem map_place_declaratorSites_sublist (d : Declaration) (isFirst : Bool) (ps : List Place) :
    ((f.declaratorSites d isFirst ps).map Site.place).Sublist ps := by
  induction ps generalizing isFirst with
  | nil => exact .slnil
  | cons p rest ih =>
    rw [declaratorSites]
    split
    · exact (ih isFirst).cons p
    · exact (ih false).cons_cons p

theorem map_place_declared_sublist (f : SourceFile) (p : Place) (rule : Rule) (scope : Scope)
    (wrapper : Option Wrapper) :
    ((f.declared p rule scope wrapper).map Site.place).Sublist p.children :=
  (map_place_declaratorSites_sublist _ _ _).trans (List.filter_sublist.trans List.filter_sublist)

/-- What is found in named children is a part of the pre-order below their parent, if what is found
in each is a part of its pre-order. -/
theorem map_place_flatMap_sublist_below (sitesOf : Place → List Site)
    (h : ∀ c ∈ p.namedChildren, ((sitesOf c).map Site.place).Sublist c.preorder) :
    ((p.namedChildren.flatMap sitesOf).map Site.place).Sublist p.below := by
  rw [List.map_flatMap]
  exact (List.Sublist.flatMap_right _ h).trans (List.filter_sublist.flatMap _)

/-- The places of the sites of a walk come in pre-order. -/
theorem map_place_walk_sublist_preorder (f : SourceFile) (p : Place) (scope : Scope)
    (wrapper : Option Wrapper) :
    ((f.walk (fun s => [s]) p scope wrapper).map Site.place).Sublist p.preorder := by
  induction p, scope, wrapper using walk.induct (f := f) with
  | case1 p scope wrapper w hv =>
    rw [walk_of_unwrap_none hv]
    exact List.nil_sublist _
  | case2 p scope wrapper inner w hv ih =>
    rw [walk_of_unwrap hv]
    have hinner := Place.preorder_sublist_below (f.mem_children_of_visit_unwrap hv)
    exact (ih.trans hinner).trans p.below_sublist_preorder
  | case3 p scope wrapper sites hv =>
    cases Decides.of_visit hv with
    | @declare rule =>
      rw [walk_of_declare hv, List.flatMap_singleton']
      have hdeclared := f.map_place_declared_sublist p rule scope wrapper
      exact (hdeclared.trans p.children_sublist_below).trans p.below_sublist_preorder
  | case4 p scope wrapper s hv ih =>
    obtain ⟨rule, -, -, -, hs⟩ := defines_of_visit hv
    rw [walk_of_define hv, List.singleton_append, List.map_cons, hs.place_eq,
      Place.preorder_eq_cons]
    refine List.Sublist.cons_cons p ?_
    rw [walkBody]
    split
    · rename_i inner body hinner hbody
      have hmem := f.mem_children_of_visit_define hv hbody
      have hbelow := map_place_flatMap_sublist_below (fun c => f.walk _ c inner none)
        fun c hc => ih inner body hbody ⟨c, hc⟩
      exact (hbelow.trans body.below_sublist_preorder).trans (Place.preorder_sublist_below hmem)
    · exact List.nil_sublist _
  | case5 p scope wrapper hv ih =>
    rw [walk_of_pass hv]
    have hbelow := map_place_flatMap_sublist_below (fun c => f.walk _ c scope none)
      fun c hc => ih ⟨c, hc⟩
    exact hbelow.trans p.below_sublist_preorder

/-! ## Rule nodes -/

/-- Visits stay at places of the tree. -/
theorem Visited.place_mem_preorder (h : f.Visited root p scope wrapper) :
    p ∈ (Place.root root).preorder := by
  induction h with
  | start => exact Place.mem_preorder_self _
  | unwrap _ hv ih =>
    exact Place.mem_preorder_of_mem_children ih (f.mem_children_of_visit_unwrap hv)
  | body _ hv _ hbody hc ih =>
    have hmem := Place.mem_preorder_of_mem_children ih (f.mem_children_of_visit_define hv hbody)
    exact Place.mem_preorder_of_mem_children hmem (Place.mem_children_of_mem_namedChildren hc)
  | pass _ _ hc ih =>
    exact Place.mem_preorder_of_mem_children ih (Place.mem_children_of_mem_namedChildren hc)

/-- A rule makes a site of a place: of a node that it defines, or of a declarator of a node that it
declares. -/
def IsRuleNode (f : SourceFile) (root : Node) (rule : Rule) (p : Place) : Prop :=
  (rule.declarators = [] ∧ f.grammar.rule? p.node.type = some rule) ∨
    (p.node.type ∈ rule.declarators ∧ ∃ d ∈ (Place.root root).preorder,
      f.grammar.rule? d.node.type = some rule ∧ p ∈ d.namedChildren)

theorem isRuleNode_of_mem_sites {s : Site} (h : s ∈ f.sites root) :
    f.IsRuleNode root s.rule s.place := by
  obtain ⟨p, scope, wrapper, hp, hs⟩ := exists_visited_of_mem_sites h
  obtain ⟨rule, hrule, -, ⟨hdefines, hs⟩ | ⟨-, hs⟩⟩ := defines_or_declares hs
  · rw [hs.rule_eq, hs.place_eq]
    exact .inl ⟨hdefines, hrule⟩
  · rw [hs.rule_eq]
    exact .inr ⟨hs.type_mem, p, hp.place_mem_preorder, hrule, hs.place_mem⟩

/-! ## Sites below sites -/

theorem place_mem_preorder_of_mem_walk {s : Site} (h : s ∈ f.walk (fun s => [s]) p scope wrapper) :
    s.place ∈ p.preorder :=
  (f.map_place_walk_sublist_preorder p scope wrapper).subset (List.mem_map_of_mem h)

/-- Sites that lie one below the other are found in one child. -/
theorem eq_of_mem_below {s t : Site} {c d : Place} {inner : Scope} (hc : c ∈ p.namedChildren)
    (hd : d ∈ p.namedChildren) (hs : s ∈ f.walk (fun s => [s]) c inner none)
    (ht : t ∈ f.walk (fun s => [s]) d inner none) (hst : t.place ∈ s.place.below) : c = d := by
  have hct := (Place.way_prefix_of_mem_preorder (place_mem_preorder_of_mem_walk hs)).trans
    (Place.way_prefix_of_mem_below hst)
  exact Place.eq_of_way_prefix (Place.mem_children_of_mem_namedChildren hc)
    (Place.mem_children_of_mem_namedChildren hd) hct
    (Place.way_prefix_of_mem_preorder (place_mem_preorder_of_mem_walk ht))

theorem exists_of_mem_walkBody {s t : Site} (h : t ∈ f.walkBody (fun s => [s]) s) :
    ∃ inner body c, f.innerScope? s = some inner ∧ s.body = some body ∧
      c ∈ body.namedChildren ∧ t ∈ f.walk (fun s => [s]) c inner none := by
  rw [walkBody] at h
  split at h
  · rename_i inner body hinner hbody
    obtain ⟨c, hc, ht⟩ := List.mem_flatMap.1 h
    exact ⟨inner, body, c, hinner, hbody, hc, ht⟩
  · exact absurd h List.not_mem_nil

theorem mem_below_of_mem_walkBody {s t : Site} (h : t ∈ f.walkBody (fun s => [s]) s) :
    s.rule.scope.isSome ∧ ∃ body, s.body = some body ∧ t.place ∈ body.below := by
  obtain ⟨inner, body, c, hinner, hbody, hc, ht⟩ := exists_of_mem_walkBody h
  obtain ⟨kind, hkind, -⟩ := Option.map_eq_some_iff.1 hinner
  have hbelow : t.place ∈ body.below := Place.mem_below.2
    ⟨c, Place.mem_children_of_mem_namedChildren hc, place_mem_preorder_of_mem_walk ht⟩
  exact ⟨Option.isSome_of_eq_some hkind, body, hbody, hbelow⟩

/-- What lies below a site is found in the body of a container. -/
theorem exists_body_of_mem_below {s t : Site} (hs : s ∈ f.walk (fun s => [s]) p scope wrapper)
    (ht : t ∈ f.walk (fun s => [s]) p scope wrapper) (hst : t.place ∈ s.place.below) :
    s.rule.scope.isSome ∧ ∃ body, s.place.part? s.rule.bodyFields s.rule.bodyTypes = some body ∧
      t.place ∈ body.below := by
  have hlength := Place.length_way_lt_of_mem_below hst
  induction p, scope, wrapper using walk.induct (f := f) with
  | case1 p scope wrapper w hv =>
    rw [walk_of_unwrap_none hv] at hs
    exact absurd hs List.not_mem_nil
  | case2 p scope wrapper inner w hv ih =>
    rw [walk_of_unwrap hv] at hs ht
    exact ih hs ht
  | case3 p scope wrapper sites hv =>
    -- Declarators are siblings.
    rw [walk_of_declare hv, List.flatMap_singleton'] at hs ht
    cases Decides.of_visit hv with
    | @declare rule =>
      have hsublist := f.map_place_declared_sublist p rule scope wrapper
      have hsway := Place.length_way_of_mem_children (hsublist.subset (List.mem_map_of_mem hs))
      have htway := Place.length_way_of_mem_children (hsublist.subset (List.mem_map_of_mem ht))
      omega
  | case4 p scope wrapper d hv ih =>
    obtain ⟨rule, -, -, -, hd⟩ := defines_of_visit hv
    rw [walk_of_define hv, List.singleton_append] at hs ht
    rcases List.mem_cons.1 hs with rfl | hs <;> rcases List.mem_cons.1 ht with rfl | ht
    · omega
    · obtain ⟨hscope, body, hbody, hbelow⟩ := mem_below_of_mem_walkBody ht
      refine ⟨hscope, body, ?_, hbelow⟩
      rw [hd.place_eq, hd.rule_eq, ← hd.body_eq, hbody]
    · obtain ⟨-, body, hbody, hbelow⟩ := mem_below_of_mem_walkBody hs
      have hmem := f.mem_children_of_visit_define hv hbody
      have hbodyway := Place.length_way_of_mem_children hmem
      have hsway := Place.length_way_lt_of_mem_below hbelow
      rw [hd.place_eq] at hlength
      omega
    · obtain ⟨inner, body, c, hinner, hbody, hc, hs⟩ := exists_of_mem_walkBody hs
      obtain ⟨inner', body', c', hinner', hbody', hc', ht⟩ := exists_of_mem_walkBody ht
      obtain rfl := Option.some.inj (hinner.symm.trans hinner')
      obtain rfl := Option.some.inj (hbody.symm.trans hbody')
      obtain rfl := eq_of_mem_below hc hc' hs ht hst
      exact ih inner body hbody ⟨c, hc⟩ hs ht
  | case5 p scope wrapper hv ih =>
    rw [walk_of_pass hv] at hs ht
    obtain ⟨c, hc, hs⟩ := List.mem_flatMap.1 hs
    obtain ⟨d, hd, ht⟩ := List.mem_flatMap.1 ht
    obtain rfl := eq_of_mem_below hc hd hs ht hst
    exact ih ⟨c, hc⟩ hs ht

/-- Without a bound there is one entity for each site, and each site is at a node of a rule.  The
places of the sites are distinct and come in pre-order, and one that lies below another one lies in
the body of that, which belongs to a container. -/
theorem sites_inPreorder (f : SourceFile) (root : Node) :
    f.entities root none = (f.sites root).map Site.entity ∧
      (∀ s ∈ f.sites root, f.IsRuleNode root s.rule s.place) ∧
      ((f.sites root).map fun s => s.place.way).Nodup ∧
      ((f.sites root).map Site.place).Sublist (Place.root root).preorder ∧
      ∀ s ∈ f.sites root, ∀ t ∈ f.sites root, t.place ∈ s.place.below →
        s.rule.scope.isSome ∧
          ∃ body, s.place.part? s.rule.bodyFields s.rule.bodyTypes = some body ∧
            t.place ∈ body.below := by
  have hsublist := f.map_place_walk_sublist_preorder (Place.root root) f.rootScope none
  have hways : ((f.sites root).map fun s => s.place.way).Nodup := by
    have hnodup := (Place.root root).nodup_map_way_preorder.sublist (hsublist.map Place.way)
    rwa [List.map_map] at hnodup
  exact ⟨f.entities_none root, fun s hs => isRuleNode_of_mem_sites hs, hways, hsublist,
    fun s hs t ht => exists_body_of_mem_below hs ht⟩

end SourceFile

end CodeCatalog
