import Mathlib.Data.List.Flatten
import CodeCatalog.Proofs.Chunk.File
import CodeCatalog.Proofs.Extraction.Lines
set_option autoImplicit false

/-!
# The order of extracted entities

Entities come in the order of their nodes, and so they nearly come in the order of their first
lines.  What a node lends to the nodes below it starts no later than they do, and what stands on its
left stops before it starts.  But the documentation of a node is looked for above comments,
attributes and decorators, and these are searched for entities themselves: an entity inside one may
start behind the documentation of the node below it.
-/

namespace CodeCatalog.SourceFile

variable {f : SourceFile} {root : Node} {p : Place} {scope : Scope} {wrapper : Option Wrapper}

/-! ## Where documentation starts -/

/-- The line on which the documentation of a place starts. -/
abbrev docsLine (f : SourceFile) (p : Place) : Nat := (f.docsAbove p).2

/-- Documentation starts where the node does, or at a node before it from which only comments,
attributes and decorators lead to it. -/
theorem docsLine_cases (f : SourceFile) (p : Place) :
    f.docsLine p = f.startLine p.node ∨
      ∃ nearer n farther, p.before = nearer ++ n :: farther ∧ f.docsLine p = f.startLine n ∧
        ∀ m ∈ nearer ++ [n], f.grammar.isMarginal m.type = true := by
  have hdocs := f.docsAbove_eq p
  cases htop : (f.docComments p).getLast? with
  | none =>
    rw [htop] at hdocs
    exact .inl (congrArg Prod.snd hdocs)
  | some n =>
    rw [htop] at hdocs
    obtain ⟨-, nearer, hreach, -⟩ := mem_docRun_iff.1 (List.mem_of_getLast? htop)
    obtain ⟨farther, hbefore⟩ := (prefix_reach_iff.1 hreach).1
    rw [List.append_assoc, List.singleton_append] at hbefore
    refine .inr ⟨nearer, n, farther, hbefore.symm, congrArg Prod.snd hdocs, fun m hm => ?_⟩
    exact isMarginal_of_mem_reach (hreach.subset hm)

section Children

variable {c : Place} (hordered : root.IsOrdered) (hp : p.node ∈ root.nodes) (hc : c ∈ p.children)

include hordered hp hc in
theorem docsLine_le_startLine : f.docsLine c ≤ f.startLine c.node := by
  rcases f.docsLine_cases c with hline | ⟨nearer, n, farther, hbefore, hline, -⟩
  · exact Nat.le_of_eq hline
  · have hn : n ∈ c.before := by simp [hbefore]
    have hstop := Place.stop_le_start_of_mem_before hordered hp hc hn
    have hmem := Node.mem_nodes_of_mem_children hp (Place.mem_children_of_mem_before hc hn)
    have hstart := (hordered n hmem).1
    rw [hline]
    exact Node.startLine_le_startLine (Nat.le_trans hstart hstop)

include hp hc in
theorem startLine_le_docsLine (hnested : root.IsNested) :
    f.startLine p.node ≤ f.docsLine c := by
  have hinside : ∀ n ∈ p.node.children, f.startLine p.node ≤ f.startLine n := by
    intro n hn
    exact Node.startLine_le_startLine (hnested p.node hp n hn).start_le
  rcases f.docsLine_cases c with hline | ⟨nearer, n, farther, hbefore, hline, -⟩
  · rw [hline]
    exact hinside c.node (Place.node_mem_children hc)
  · have hn : n ∈ c.before := by simp [hbefore]
    rw [hline]
    exact hinside n (Place.mem_children_of_mem_before hc hn)

end Children

/-- A node on the left of another one stops before the documentation of that starts, unless it is a
comment, an attribute or a decorator that the documentation stands above, or is. -/
theorem overlooked_or_row_lt_docsLine {c a : Place} (hordered : root.IsOrdered)
    (hp : p.node ∈ root.nodes) (h : [c, a].Sublist p.namedChildren) :
    (f.grammar.isMarginal c.node.type = true ∧ f.docsLine a ≤ f.startLine c.node) ∨
      Source.row f.source c.node.stop < f.docsLine a := by
  have hc := Place.mem_before_of_sublist h
  have ha : a ∈ p.children :=
    Place.mem_children_of_mem_namedChildren (h.subset (List.mem_cons_of_mem c List.mem_cons_self))
  rcases f.docsLine_cases a with hline | ⟨nearer, n, farther, hbefore, hline, hmarginal⟩
  · right
    rw [hline]
    exact Nat.lt_succ_of_le
      (Source.row_le_row (Place.stop_le_start_of_mem_before hordered hp ha hc))
  · have hn : n ∈ a.before := by simp [hbefore]
    have hstart := (hordered n (Node.mem_nodes_of_mem_children hp
      (Place.mem_children_of_mem_before ha hn))).1
    have hpairwise := Place.pairwise_before hordered hp ha
    rw [hbefore] at hc hpairwise
    obtain ⟨-, hfarther, hnearer⟩ := List.pairwise_append.1 hpairwise
    rw [hline]
    rcases List.mem_append.1 hc with hc | hc
    · refine .inl ⟨hmarginal _ (List.mem_append_left _ hc), Node.startLine_le_startLine ?_⟩
      exact Nat.le_trans hstart (hnearer _ hc n List.mem_cons_self)
    · rcases List.mem_cons.1 hc with rfl | hc
      · exact .inl ⟨hmarginal _ (List.mem_append_right _ List.mem_cons_self), Nat.le_refl _⟩
      · right
        exact Nat.lt_succ_of_le (Source.row_le_row ((List.pairwise_cons.1 hfarther).1 _ hc))

/-! ## The first line of a site -/

/-- The place above which the documentation of a visited node is looked for. -/
def anchor (p : Place) (wrapper : Option Wrapper) : Place := (wrapper.map Wrapper.place).getD p

/-- What a wrapper wraps has the anchor of the wrapper. -/
theorem anchor_of_visit_unwrap {inner : Place} {w : Wrapper}
    (hv : f.visit p scope wrapper = .unwrap (some inner) w) :
    anchor inner (some w) = anchor p wrapper := by
  obtain ⟨keepText, rfl⟩ := wrapper_of_visit_unwrap hv
  cases wrapper <;> rfl

/-- A visited node lies inside its anchor, and that does not start before its documentation. -/
theorem Visited.docsLine_anchor_le (hnested : root.IsNested) (hordered : root.IsOrdered)
    (hp : f.Visited root p scope wrapper) :
    f.docsLine (anchor p wrapper) ≤ f.startLine (anchor p wrapper).node ∧
      p.node.Inside (anchor p wrapper).node := by
  refine ⟨?_, ?_⟩
  · induction hp with
    | start =>
      rcases f.docsLine_cases (Place.root root) with hline | ⟨nearer, n, farther, hbefore, -⟩
      · exact Nat.le_of_eq hline
      · simp [Place.root] at hbefore
    | unwrap _ hv ih => rwa [anchor_of_visit_unwrap hv]
    | body hp hv _ hbody hc _ =>
      have hmem := Place.node_mem_children (f.mem_children_of_visit_define hv hbody)
      exact docsLine_le_startLine hordered (Node.mem_nodes_of_mem_children hp.node_mem_nodes hmem)
        (Place.mem_children_of_mem_namedChildren hc)
    | pass hp _ hc _ =>
      exact docsLine_le_startLine hordered hp.node_mem_nodes
        (Place.mem_children_of_mem_namedChildren hc)
  · cases wrapper with
    | none => exact .refl _
    | some w => exact hp.inside_wrapper hnested w rfl

theorem Visited.docsLine_anchor_le_startLine (hnested : root.IsNested)
    (hordered : root.IsOrdered) (hp : f.Visited root p scope wrapper) :
    f.docsLine (anchor p wrapper) ≤ f.startLine p.node := by
  obtain ⟨hdocs, hinside⟩ := hp.docsLine_anchor_le hnested hordered
  exact Nat.le_trans hdocs (Node.startLine_le_startLine hinside.start_le)

theorem shownNode_inside_anchor (hinside : p.node.Inside (anchor p wrapper).node) :
    (shownNode p wrapper).Inside (anchor p wrapper).node := by
  unfold shownNode
  split
  · split
    · exact .refl _
    · exact hinside
  · exact hinside

/-- The first line of a site of a node is none before the documentation of the node, and the node
does not stop before it. -/
structure StartsWithin (f : SourceFile) (p : Place) (wrapper : Option Wrapper) (s : Site) :
    Prop where
  docs_le : (f.docsLine (anchor p wrapper) : Int) ≤ s.entity.lineFrom
  le_stop : s.entity.lineFrom ≤ Source.row f.source p.node.stop + 1

section Sites

variable {rule : Rule} {s : Site}

theorem startLine_le_of_le_stop {n m : Node} (h : n.start ≤ m.stop) :
    (f.startLine n : Int) ≤ Source.row f.source m.stop + 1 := by
  have hrow : Source.row f.source n.start ≤ Source.row f.source m.stop := Source.row_le_row h
  have hline : f.startLine n = Source.row f.source n.start + 1 := rfl
  omega

theorem lineFrom_of_definition? (h : f.definition? p rule scope wrapper = some s) :
    ∃ marked, (marked = p.node ∨ marked ∈ p.node.children) ∧
      s.entity.lineFrom = min (f.docsLine (anchor p wrapper) : Int)
        (min ↑(f.startLine (shownNode p wrapper)) ↑(f.startLine marked)) := by
  unfold definition? at h
  obtain ⟨rawName, hname, h⟩ := Option.bind_eq_some_iff.1 h
  cases h
  refine ⟨((p.part? rule.nameFields rule.nameTypes).map Place.node).getD p.node, ?_, rfl⟩
  cases hpart : p.part? rule.nameFields rule.nameTypes with
  | none => exact .inl rfl
  | some c => exact .inr (Place.node_mem_children (Place.mem_children_of_part? hpart))

theorem startsWithin_of_definition? (hnested : root.IsNested) (hordered : root.IsOrdered)
    (hp : f.Visited root p scope wrapper) (h : f.definition? p rule scope wrapper = some s) :
    f.StartsWithin p wrapper s ∧ s.entity.lineFrom ≤ f.docsLine (anchor p wrapper) := by
  obtain ⟨marked, hmarked, hline⟩ := lineFrom_of_definition? h
  obtain ⟨hdocs, hinside⟩ := hp.docsLine_anchor_le hnested hordered
  have hshown : f.startLine (anchor p wrapper).node ≤ f.startLine (shownNode p wrapper) :=
    Node.startLine_le_startLine (shownNode_inside_anchor hinside).start_le
  have hmark : f.startLine p.node ≤ f.startLine marked := by
    rcases hmarked with rfl | hmem
    · exact Nat.le_refl _
    · exact Node.startLine_le_startLine (hnested p.node hp.node_mem_nodes marked hmem).start_le
  have hbelow := hp.docsLine_anchor_le_startLine hnested hordered
  have hstop := startLine_le_of_le_stop (f := f) (hordered p.node hp.node_mem_nodes).1
  refine ⟨⟨?_, ?_⟩, ?_⟩ <;> omega

/-! ### Declarators -/

variable {d : Declaration} {q nameNode : Place} {isFirst : Bool}

/-- The node whose text an entity of a declarator shows. -/
def declaredNode (d : Declaration) (q : Place) : Node :=
  if d.single then shownNode d.place d.wrapper else q.node

theorem declaredNode_cases (d : Declaration) (q : Place) :
    declaredNode d q = shownNode d.place d.wrapper ∨ declaredNode d q = q.node := by
  unfold declaredNode
  split
  · exact .inl rfl
  · exact .inr rfl

theorem lineFrom_declaratorSite :
    (f.declaratorSite d isFirst q nameNode).entity.lineFrom =
      if isFirst then min (d.docs.2 : Int)
        (min ↑(f.startLine (declaredNode d q)) ↑(f.startLine nameNode.node))
      else ↑(f.startLine (declaredNode d q)) := rfl

theorem lineFrom_declaratorSite_le :
    (f.declaratorSite d isFirst q nameNode).entity.lineFrom ≤ f.startLine (declaredNode d q) := by
  rw [lineFrom_declaratorSite]
  split <;> omega

/-- Sites after the first start with their own text. -/
theorem lineFrom_of_mem_declaratorSites_false {ps : List Place}
    (h : s ∈ f.declaratorSites d false ps) :
    ∃ q ∈ ps, s.entity.lineFrom = f.startLine (declaredNode d q) := by
  have hsite : ∃ q ∈ ps, ∃ nameNode, declaratorName? d.rule q = some nameNode ∧
      s = f.declaratorSite d false q nameNode := by
    rcases head?_eq_or_mem_tail h with hhead | htail
    · exact exists_declarator_of_head? hhead
    · exact exists_declarator_of_mem_tail htail
  obtain ⟨q, hq, nameNode, -, rfl⟩ := hsite
  exact ⟨q, hq, rfl⟩

/-- The sites of declarators that are shown alone come in the order of their lines. -/
theorem pairwise_declaratorSites (hsingle : d.single = false) {ps : List Place}
    (h : ps.Pairwise fun q r => q.node.start ≤ r.node.start) :
    (f.declaratorSites d isFirst ps).Pairwise fun s t => s.entity.lineFrom ≤ t.entity.lineFrom := by
  have hshown : ∀ q : Place, declaredNode d q = q.node := fun q => by simp [declaredNode, hsingle]
  induction ps generalizing isFirst with
  | nil => exact .nil
  | cons q rest ih =>
    obtain ⟨hq, hrest⟩ := List.pairwise_cons.1 h
    rw [declaratorSites]
    split
    · exact ih hrest
    · rename_i nameNode _
      refine List.pairwise_cons.2 ⟨fun t ht => ?_, ih hrest⟩
      obtain ⟨r, hr, hline⟩ := lineFrom_of_mem_declaratorSites_false ht
      have hfirst : (f.declaratorSite d isFirst q nameNode).entity.lineFrom ≤
          f.startLine (declaredNode d q) := lineFrom_declaratorSite_le
      have hlater : f.startLine q.node ≤ f.startLine r.node :=
        Node.startLine_le_startLine (hq r hr)
      rw [hshown] at hfirst hline
      omega

theorem length_declaratorSites_le (ps : List Place) :
    (f.declaratorSites d isFirst ps).length ≤ ps.length := by
  induction ps generalizing isFirst with
  | nil => exact Nat.le_refl _
  | cons q rest ih =>
    rw [declaratorSites]
    split
    · exact Nat.le_succ_of_le ih
    · exact Nat.succ_le_succ ih

/-- The children of a node start in their order. -/
theorem pairwise_start_namedChildren (hordered : root.IsOrdered) (hp : p.node ∈ root.nodes) :
    p.namedChildren.Pairwise fun q r => q.node.start ≤ r.node.start := by
  have hchildren : p.node.namedChildren.Pairwise fun m n => m.start ≤ n.start := by
    refine ((hordered p.node hp).2.filter _).imp_of_mem fun {m n} hm _ hstop => ?_
    have hmem := Node.mem_nodes_of_mem_children hp (List.mem_filter.1 hm).1
    exact Nat.le_trans (hordered m hmem).1 hstop
  rw [← Place.map_node_namedChildren, List.pairwise_map] at hchildren
  exact hchildren

theorem pairwise_declared (hordered : root.IsOrdered) (hp : p.node ∈ root.nodes) :
    (f.declared p rule scope wrapper).Pairwise
      fun s t => s.entity.lineFrom ≤ t.entity.lineFrom := by
  let declarators := p.namedChildren.filter fun c => rule.declarators.contains c.node.type
  by_cases hone : declarators.length = 1
  · have hlength : (f.declared p rule scope wrapper).length ≤ 1 :=
      Nat.le_trans (length_declaratorSites_le _) (Nat.le_of_eq hone)
    match hsites : f.declared p rule scope wrapper with
    | [] => exact .nil
    | [s] => exact List.pairwise_singleton _ _
    | s :: t :: rest =>
      rw [hsites, List.length_cons, List.length_cons] at hlength
      omega
  · refine pairwise_declaratorSites ?_ ((pairwise_start_namedChildren hordered hp).filter _)
    exact beq_eq_false_iff_ne.2 hone

theorem startsWithin_of_declared (hnested : root.IsNested) (hordered : root.IsOrdered)
    (hp : f.Visited root p scope wrapper) (h : s ∈ f.declared p rule scope wrapper) :
    f.StartsWithin p wrapper s := by
  obtain ⟨isFirst, q, hq, nameNode, hname, rfl⟩ := exists_declarator_of_mem_declaratorSites h
  have hqmem := Place.node_mem_children_of_mem_namedChildren (List.mem_filter.1 hq).1
  have hqtree := Node.mem_nodes_of_mem_children hp.node_mem_nodes hqmem
  obtain ⟨hqinside, hnameinside⟩ :=
    hp.declarator_inside hnested (List.mem_filter.1 hq).1 hname
  obtain ⟨hdocs, hinside⟩ := hp.docsLine_anchor_le hnested hordered
  have hmarked : f.startLine (anchor p wrapper).node ≤ f.startLine nameNode.node :=
    Node.startLine_le_startLine ((hnameinside.trans hqinside).trans hinside).start_le
  generalize hd : (Declaration.mk p rule scope wrapper _ _ _) = d
  have hdoc : d.docs.2 = f.docsLine (anchor p wrapper) := hd ▸ rfl
  -- The text that is shown lies inside the anchor, and starts before the node stops.
  have hshown : f.startLine (anchor p wrapper).node ≤ f.startLine (declaredNode d q) ∧
      (declaredNode d q).start ≤ p.node.stop := by
    rcases declaredNode_cases d q with hshown | hshown
    · have hsame : shownNode d.place d.wrapper = shownNode p wrapper := hd ▸ rfl
      rw [hshown, hsame]
      refine ⟨Node.startLine_le_startLine (shownNode_inside_anchor hinside).start_le, ?_⟩
      exact Nat.le_trans (hp.inside_shownNode hnested).start_le (hordered _ hp.node_mem_nodes).1
    · rw [hshown]
      refine ⟨Node.startLine_le_startLine (hqinside.trans hinside).start_le, ?_⟩
      exact Nat.le_trans (hordered _ hqtree).1 hqinside.stop_le
  refine ⟨?_, ?_⟩
  · rw [lineFrom_declaratorSite]
    split <;> omega
  · exact Int.le_trans lineFrom_declaratorSite_le (startLine_le_of_le_stop hshown.2)

end Sites

/-! ## Children that are searched -/

/-- The places whose named children are searched in turn, with the scope that these are visited
in: nodes that are no sites, and the bodies of containers. -/
inductive Searched (f : SourceFile) (root : Node) : Place → Scope → Prop
  | pass {p : Place} {scope : Scope} {wrapper : Option Wrapper}
    (h : f.Visited root p scope wrapper) (hv : f.visit p scope wrapper = .pass) :
    f.Searched root p scope
  | body {p body : Place} {scope inner : Scope} {wrapper : Option Wrapper} {s : Site}
    (h : f.Visited root p scope wrapper) (hv : f.visit p scope wrapper = .define s)
    (hinner : f.innerScope? s = some inner) (hbody : s.body = some body) :
    f.Searched root body inner

/-- The sites below a child. -/
def childSites (f : SourceFile) (scope : Scope) (c : Place) : List Site :=
  f.walk (fun s => [s]) c scope none

theorem Searched.node_mem_nodes (h : f.Searched root p scope) : p.node ∈ root.nodes := by
  cases h with
  | pass h _ => exact h.node_mem_nodes
  | body h hv _ hbody =>
    have hmem := Place.node_mem_children (f.mem_children_of_visit_define hv hbody)
    exact Node.mem_nodes_of_mem_children h.node_mem_nodes hmem

theorem Searched.visited (h : f.Searched root p scope) {c : Place} (hc : c ∈ p.namedChildren) :
    f.Visited root c scope none := by
  cases h with
  | pass h hv => exact h.pass hv hc
  | body h hv hinner hbody => exact h.body hv hinner hbody hc

/-- What is found from a visited node on is a part of what is found in the tree. -/
theorem Visited.walk_sublist (h : f.Visited root p scope wrapper) :
    (f.walk (fun s => [s]) p scope wrapper).Sublist (f.sites root) := by
  have hchild : ∀ {q c : Place} {inner : Scope}, c ∈ q.namedChildren →
      (f.walk (fun s => [s]) c inner none).Sublist
        (q.namedChildren.flatMap (f.childSites inner)) := by
    intro q c inner hc
    have hone := (List.singleton_sublist.2 hc).flatMap (f.childSites inner)
    rwa [List.flatMap_singleton] at hone
  induction h with
  | start => exact .refl _
  | unwrap _ hv ih => rwa [walk_of_unwrap hv] at ih
  | body _ hv hinner hbody hc ih =>
    rw [walk_of_define hv, walkBody, hinner, hbody] at ih
    exact (hchild hc).trans ((List.sublist_append_right _ _).trans ih)
  | pass _ hv hc ih =>
    rw [walk_of_pass hv] at ih
    exact (hchild hc).trans ih

theorem Searched.childSites_sublist (h : f.Searched root p scope) :
    (p.namedChildren.flatMap (f.childSites scope)).Sublist (f.sites root) := by
  cases h with
  | pass h hv =>
    have hwalk := h.walk_sublist
    rwa [walk_of_pass hv] at hwalk
  | body h hv hinner hbody =>
    have hwalk := h.walk_sublist
    rw [walk_of_define hv, walkBody, hinner, hbody] at hwalk
    exact (List.sublist_append_right _ _).trans hwalk

theorem exists_declared_of_visit {sites : List Site}
    (h : f.visit p scope wrapper = .declare sites) :
    ∃ rule, f.declared p rule scope wrapper = sites := by
  cases Decides.of_visit h with
  | declare => exact ⟨_, rfl⟩

theorem exists_definition?_of_visit {s : Site} (h : f.visit p scope wrapper = .define s) :
    ∃ rule, f.definition? p rule scope wrapper = some s := by
  cases Decides.of_visit h with
  | define _ _ _ hsite => exact ⟨_, hsite⟩

/-! ## The first lines below a node -/

section Within

variable {s : Site} (hnested : root.IsNested) (hordered : root.IsOrdered)

include hnested hordered in
theorem startsWithin_of_mem_sites_visit (hp : f.Visited root p scope wrapper)
    (h : s ∈ (f.visit p scope wrapper).sites) : f.StartsWithin p wrapper s := by
  obtain ⟨rule, -, -, ⟨-, hs⟩ | ⟨-, hs⟩⟩ := mem_sites_visit h
  · exact (startsWithin_of_definition? hnested hordered hp hs).1
  · exact startsWithin_of_declared hnested hordered hp hs

include hnested in
/-- A site that starts within a child of a node below starts within the node. -/
theorem StartsWithin.of_child {q c : Place} (hq : q.node ∈ root.nodes)
    (hc : c ∈ q.namedChildren) (hinside : q.node.Inside p.node)
    (hp : f.docsLine (anchor p wrapper) ≤ f.startLine p.node) (h : f.StartsWithin c none s) :
    f.StartsWithin p wrapper s := by
  have hmem := Place.mem_children_of_mem_namedChildren hc
  have hdocs : f.startLine q.node ≤ f.docsLine c := startLine_le_docsLine hq hmem hnested
  have hstart : f.startLine p.node ≤ f.startLine q.node :=
    Node.startLine_le_startLine hinside.start_le
  have hcinside : c.node.Inside q.node := hnested _ hq _ (Place.node_mem_children hmem)
  have hstop : Source.row f.source c.node.stop ≤ Source.row f.source p.node.stop :=
    Source.row_le_row (Nat.le_trans hcinside.stop_le hinside.stop_le)
  obtain ⟨hlow, hhigh⟩ := h
  have hanchor : anchor c none = c := rfl
  rw [hanchor] at hlow
  refine ⟨?_, ?_⟩ <;> omega

include hnested hordered in
/-- The sites that are found from a visited node on start within it. -/
theorem Visited.startsWithin_of_mem_walk (hp : f.Visited root p scope wrapper)
    (h : s ∈ f.walk (fun s => [s]) p scope wrapper) : f.StartsWithin p wrapper s := by
  induction p, scope, wrapper using walk.induct (f := f) with
  | case1 p scope wrapper w hv =>
    rw [walk_of_unwrap_none hv] at h
    exact absurd h List.not_mem_nil
  | case2 p scope wrapper inner w hv ih =>
    rw [walk_of_unwrap hv] at h
    obtain ⟨hlow, hhigh⟩ := ih (hp.unwrap hv) h
    have hmem := Place.node_mem_children (f.mem_children_of_visit_unwrap hv)
    have hstop : Source.row f.source inner.node.stop ≤ Source.row f.source p.node.stop :=
      Source.row_le_row (hnested _ hp.node_mem_nodes _ hmem).stop_le
    rw [anchor_of_visit_unwrap hv] at hlow
    exact ⟨hlow, by omega⟩
  | case3 p scope wrapper sites hv =>
    rw [walk_of_declare hv, List.flatMap_singleton'] at h
    exact startsWithin_of_mem_sites_visit hnested hordered hp (by rwa [hv])
  | case4 p scope wrapper d hv ih =>
    rw [walk_of_define hv] at h
    rcases List.mem_append.1 h with h | h
    · exact startsWithin_of_mem_sites_visit hnested hordered hp (by rwa [hv])
    · rw [walkBody] at h
      split at h
      · rename_i inner body hinner hbody
        obtain ⟨c, hc, h⟩ := List.mem_flatMap.1 h
        have hmem := Place.node_mem_children (f.mem_children_of_visit_define hv hbody)
        have hbelow := ih inner body hbody ⟨c, hc⟩ (hp.body hv hinner hbody hc) h
        refine hbelow.of_child hnested (Node.mem_nodes_of_mem_children hp.node_mem_nodes hmem) hc
          (hnested _ hp.node_mem_nodes _ hmem) ?_
        exact hp.docsLine_anchor_le_startLine hnested hordered
      · exact absurd h List.not_mem_nil
  | case5 p scope wrapper hv ih =>
    rw [walk_of_pass hv] at h
    obtain ⟨c, hc, h⟩ := List.mem_flatMap.1 h
    have hbelow := ih ⟨c, hc⟩ (hp.pass hv hc) h
    refine hbelow.of_child hnested hp.node_mem_nodes hc (.refl _) ?_
    exact hp.docsLine_anchor_le_startLine hnested hordered

end Within

/-! ## The order of the first lines -/

/-- A site that is found in a comment, an attribute or a decorator, and a site that is found in a
later child whose documentation does not start below that. -/
inductive Overlooks (f : SourceFile) (root : Node) (s t : Site) : Prop
  | intro {p c a : Place} {scope : Scope} (hp : f.Searched root p scope)
    (hca : [c, a].Sublist p.namedChildren) (hc : f.grammar.isMarginal c.node.type = true)
    (hdocs : f.docsLine a ≤ f.startLine c.node) (hs : s ∈ f.childSites scope c)
    (ht : t ∈ f.childSites scope a)

section Order

variable (hnested : root.IsNested) (hordered : root.IsOrdered)
  (hoverlooked : ∀ s t, f.Overlooks root s t → s.entity.lineFrom ≤ t.entity.lineFrom)

include hnested hordered hoverlooked in
/-- The sites below the children of a node are in order if those below each child are. -/
theorem pairwise_childSites (hp : f.Searched root p scope)
    (hbelow : ∀ c ∈ p.namedChildren,
      (f.childSites scope c).Pairwise fun s t => s.entity.lineFrom ≤ t.entity.lineFrom) :
    (p.namedChildren.flatMap (f.childSites scope)).Pairwise
      fun s t => s.entity.lineFrom ≤ t.entity.lineFrom := by
  refine List.pairwise_flatMap.2 ⟨hbelow, List.pairwise_iff_forall_sublist.2 ?_⟩
  intro c a hca s hs t ht
  have hc : c ∈ p.namedChildren := hca.subset List.mem_cons_self
  have ha : a ∈ p.namedChildren := hca.subset (List.mem_cons_of_mem c List.mem_cons_self)
  rcases overlooked_or_row_lt_docsLine (f := f) hordered hp.node_mem_nodes hca with
    ⟨hmarginal, hdocs⟩ | hstop
  · exact hoverlooked s t ⟨hp, hca, hmarginal, hdocs, hs, ht⟩
  · have hhigh := ((hp.visited hc).startsWithin_of_mem_walk hnested hordered hs).le_stop
    have hlow := ((hp.visited ha).startsWithin_of_mem_walk hnested hordered ht).docs_le
    have hanchor : anchor a none = a := rfl
    rw [hanchor] at hlow
    omega

include hnested hordered hoverlooked in
theorem Visited.pairwise_walk (hp : f.Visited root p scope wrapper) :
    (f.walk (fun s => [s]) p scope wrapper).Pairwise
      fun s t => s.entity.lineFrom ≤ t.entity.lineFrom := by
  induction p, scope, wrapper using walk.induct (f := f) with
  | case1 p scope wrapper w hv =>
    rw [walk_of_unwrap_none hv]
    exact .nil
  | case2 p scope wrapper inner w hv ih =>
    rw [walk_of_unwrap hv]
    exact ih (hp.unwrap hv)
  | case3 p scope wrapper sites hv =>
    obtain ⟨rule, rfl⟩ := exists_declared_of_visit hv
    rw [walk_of_declare hv, List.flatMap_singleton']
    exact pairwise_declared hordered hp.node_mem_nodes
  | case4 p scope wrapper d hv ih =>
    have hwithin := fun t => hp.startsWithin_of_mem_walk hnested hordered (s := t)
    rw [walk_of_define hv] at hwithin ⊢
    refine List.pairwise_append.2 ⟨List.pairwise_singleton _ _, ?_, fun s hs t ht => ?_⟩
    · rw [walkBody]
      split
      · rename_i inner body hinner hbody
        exact pairwise_childSites hnested hordered hoverlooked (.body hp hv hinner hbody)
          fun c hc => ih inner body hbody ⟨c, hc⟩ (hp.body hv hinner hbody hc)
      · exact .nil
    · -- A container starts with its documentation at the latest, and its members do so at the
      -- earliest.
      obtain rfl := List.mem_singleton.1 hs
      obtain ⟨rule, hrule⟩ := exists_definition?_of_visit hv
      have hfirst := (startsWithin_of_definition? hnested hordered hp hrule).2
      exact Int.le_trans hfirst (hwithin t (List.mem_append_right _ ht)).docs_le
  | case5 p scope wrapper hv ih =>
    rw [walk_of_pass hv]
    exact pairwise_childSites hnested hordered hoverlooked (.pass hp hv) fun c hc =>
      ih ⟨c, hc⟩ (hp.pass hv hc)

end Order

/-- Sites in order are so at what a node overlooks. -/
theorem Overlooks.lineFrom_le {s t : Site} (h : f.Overlooks root s t)
    (hsites : (f.sites root).Pairwise fun s t => s.entity.lineFrom ≤ t.entity.lineFrom) :
    s.entity.lineFrom ≤ t.entity.lineFrom := by
  cases h with
  | @intro p c a scope hp hca _ _ hs ht =>
    have hpart : ([c, a].flatMap (f.childSites scope)).Pairwise
        fun s t => s.entity.lineFrom ≤ t.entity.lineFrom :=
      hsites.sublist ((hca.flatMap _).trans hp.childSites_sublist)
    rw [List.flatMap_cons, List.flatMap_singleton] at hpart
    exact (List.pairwise_append.1 hpart).2.2 s hs t ht

/-- Where the ranges of a tree are nested and ordered, the first lines of its entities never
decrease along the list exactly if none does at what a node overlooks: from an entity in a comment,
an attribute or a decorator to one of a later child whose documentation does not start below that.
The entities stay in place when they are sorted by their first lines exactly if these never
decrease. -/
theorem pairwise_entities_iff (f : SourceFile) {root : Node} (hnested : root.IsNested)
    (hordered : root.IsOrdered) :
    ((f.entities root none).Pairwise (fun d e => d.lineFrom ≤ e.lineFrom) ↔
      ∀ s t, f.Overlooks root s t → s.entity.lineFrom ≤ t.entity.lineFrom) ∧
    ((perFile (f.entities root none)).flatten = f.entities root none ↔
      (f.entities root none).Pairwise fun d e => d.lineFrom ≤ e.lineFrom) := by
  refine ⟨?_, flatten_perFile_eq_iff fun e he => filePath_of_mem_entities he⟩
  rw [entities_none, List.pairwise_map]
  constructor
  · intro hsites s t hst
    exact hst.lineFrom_le hsites
  · intro hoverlooked
    exact Visited.start.pairwise_walk hnested hordered hoverlooked

theorem pairwise_entities_iff_exportedLimits :
    exportedLimitsTree.IsNested ∧ exportedLimitsTree.IsOrdered ∧
      ((exportedLimits.entities exportedLimitsTree none).Pairwise
          (fun d e => d.lineFrom ≤ e.lineFrom) ↔
        ∀ s t, exportedLimits.Overlooks exportedLimitsTree s t →
          s.entity.lineFrom ≤ t.entity.lineFrom) ∧
      ((perFile (exportedLimits.entities exportedLimitsTree none)).flatten =
          exportedLimits.entities exportedLimitsTree none ↔
        (exportedLimits.entities exportedLimitsTree none).Pairwise
          fun d e => d.lineFrom ≤ e.lineFrom) := by
  have hnested : exportedLimitsTree.IsNested := by decide
  have hordered : exportedLimitsTree.IsOrdered := by decide
  exact ⟨hnested, hordered, pairwise_entities_iff exportedLimits hnested hordered⟩

/-! ## A decorator with a function -/

/-- A class with a documented method, and a constant in a decorator of that. -/
def decoratedClass : SourceFile where
  grammar := Grammar.typescript
  source := Utf8.encode <| "class A \x7b\n  /** doc */\n  @dec(() => \x7b\n    const x = 1;\n" ++
    "  \x7d)\n  m() \x7b\x7d\n\x7d\n"
  path := ⟨[], ["src", "main.ts"]⟩

/-- The constant. -/
def decoratorConstant : Node :=
  ⟨"lexical_declaration", true, "", 42, 54,
    [⟨"const", false, "", 42, 47, []⟩,
      ⟨"variable_declarator", true, "", 48, 53,
        [⟨"identifier", true, "name", 48, 49, []⟩, ⟨"=", false, "", 50, 51, []⟩,
          ⟨"number", true, "value", 52, 53, []⟩]⟩,
      ⟨";", false, "", 53, 54, []⟩]⟩

def decoratorBody : Node :=
  ⟨"statement_block", true, "body", 36, 58,
    [⟨"\x7b", false, "", 36, 37, []⟩, decoratorConstant, ⟨"\x7d", false, "", 57, 58, []⟩]⟩

def decoratorFunction : Node :=
  ⟨"arrow_function", true, "", 30, 58,
    [⟨"formal_parameters", true, "parameters", 30, 32,
        [⟨"(", false, "", 30, 31, []⟩, ⟨")", false, "", 31, 32, []⟩]⟩,
      ⟨"=>", false, "", 33, 35, []⟩, decoratorBody]⟩

def decoratorArguments : Node :=
  ⟨"arguments", true, "arguments", 29, 59,
    [⟨"(", false, "", 29, 30, []⟩, decoratorFunction, ⟨")", false, "", 58, 59, []⟩]⟩

def decoratorCall : Node :=
  ⟨"call_expression", true, "", 26, 59,
    [⟨"identifier", true, "function", 26, 29, []⟩, decoratorArguments]⟩

/-- The decorator. -/
def methodDecorator : Node :=
  ⟨"decorator", true, "", 25, 59, [⟨"@", false, "", 25, 26, []⟩, decoratorCall]⟩

/-- The method. -/
def decoratedMethod : Node :=
  ⟨"method_definition", true, "", 62, 68,
    [⟨"property_identifier", true, "name", 62, 63, []⟩,
      ⟨"formal_parameters", true, "parameters", 63, 65,
        [⟨"(", false, "", 63, 64, []⟩, ⟨")", false, "", 64, 65, []⟩]⟩,
      ⟨"statement_block", true, "body", 66, 68,
        [⟨"\x7b", false, "", 66, 67, []⟩, ⟨"\x7d", false, "", 67, 68, []⟩]⟩]⟩

/-- The comment above the method. -/
def methodComment : Node := ⟨"comment", true, "", 12, 22, []⟩

def decoratedBody : Node :=
  ⟨"class_body", true, "body", 8, 70,
    [⟨"\x7b", false, "", 8, 9, []⟩, methodComment, methodDecorator, decoratedMethod,
      ⟨"\x7d", false, "", 69, 70, []⟩]⟩

def decoratedClassNode : Node :=
  ⟨"class_declaration", true, "", 0, 70,
    [⟨"class", false, "", 0, 5, []⟩, ⟨"type_identifier", true, "name", 6, 7, []⟩, decoratedBody]⟩

def decoratedClassTree : Node := ⟨"program", true, "", 0, 71, [decoratedClassNode]⟩

def decoratedBodyPlace : Place :=
  ⟨decoratedBody, [0, 2], [⟨"type_identifier", true, "name", 6, 7, []⟩]⟩

def decoratorPlace : Place := ⟨methodDecorator, [0, 2, 2], [methodComment]⟩

def methodPlace : Place := ⟨decoratedMethod, [0, 2, 3], [methodDecorator, methodComment]⟩

theorem exists_searched_decoratedBody :
    ∃ scope, decoratedClass.Searched decoratedClassTree decoratedBodyPlace scope := by
  have hroot : decoratedClass.visit (Place.root decoratedClassTree) decoratedClass.rootScope none =
      .pass := rfl
  have hclass : ⟨decoratedClassNode, [0], []⟩ ∈ (Place.root decoratedClassTree).namedChildren :=
    List.mem_singleton.2 rfl
  have hdefine : ∃ s inner, decoratedClass.visit ⟨decoratedClassNode, [0], []⟩
      decoratedClass.rootScope none = .define s ∧ decoratedClass.innerScope? s = some inner ∧
        s.body = some decoratedBodyPlace := ⟨_, _, rfl, rfl, rfl⟩
  obtain ⟨s, inner, hv, hinner, hbody⟩ := hdefine
  exact ⟨inner, .body (Visited.start.pass hroot hclass) hv hinner hbody⟩

/-- The constant is found in the decorator. -/
theorem exists_mem_childSites_decorator (scope : Scope) :
    ∃ s ∈ decoratedClass.childSites scope decoratorPlace, s.entity.lineFrom = 4 := by
  let callPlace : Place := ⟨decoratorCall, [0, 2, 2, 1], []⟩
  let argumentsPlace : Place :=
    ⟨decoratorArguments, [0, 2, 2, 1, 1], [⟨"identifier", true, "function", 26, 29, []⟩]⟩
  let functionPlace : Place := ⟨decoratorFunction, [0, 2, 2, 1, 1, 1], []⟩
  let bodyPlace : Place := ⟨decoratorBody, [0, 2, 2, 1, 1, 1, 2],
    [⟨"formal_parameters", true, "parameters", 30, 32,
      [⟨"(", false, "", 30, 31, []⟩, ⟨")", false, "", 31, 32, []⟩]⟩]⟩
  let constantPlace : Place := ⟨decoratorConstant, [0, 2, 2, 1, 1, 1, 2, 1], []⟩
  have hcall : callPlace ∈ decoratorPlace.namedChildren := List.mem_singleton.2 rfl
  have harguments : argumentsPlace ∈ callPlace.namedChildren :=
    List.mem_cons_of_mem _ (List.mem_singleton.2 rfl)
  have hfunction : functionPlace ∈ argumentsPlace.namedChildren := List.mem_singleton.2 rfl
  have hbody : bodyPlace ∈ functionPlace.namedChildren :=
    List.mem_cons_of_mem _ (List.mem_singleton.2 rfl)
  have hconstant : constantPlace ∈ bodyPlace.namedChildren := List.mem_singleton.2 rfl
  have hsite : ∃ s, decoratedClass.visit constantPlace scope none = .declare [s] ∧
      s.entity.lineFrom = 4 := ⟨_, rfl, rfl⟩
  obtain ⟨s, hv, hline⟩ := hsite
  have hs : s ∈ decoratedClass.walk (fun s => [s]) constantPlace scope none :=
    mem_walk_of_mem_sites_visit (hv ▸ List.mem_singleton.2 rfl)
  refine ⟨s, ?_, hline⟩
  exact mem_walk_of_pass rfl hcall <| mem_walk_of_pass rfl harguments <|
    mem_walk_of_pass rfl hfunction <| mem_walk_of_pass rfl hbody <|
      mem_walk_of_pass rfl hconstant hs

/-- The method starts with the comment above the decorator. -/
theorem exists_mem_childSites_method (scope : Scope) :
    ∃ s ∈ decoratedClass.childSites scope methodPlace, s.entity.lineFrom = 2 := by
  have hsite : ∃ s, decoratedClass.visit methodPlace scope none = .define s ∧
      s.entity.lineFrom = 2 := ⟨_, rfl, rfl⟩
  obtain ⟨s, hv, hline⟩ := hsite
  exact ⟨s, mem_walk_of_mem_sites_visit (hv ▸ List.mem_singleton.2 rfl), hline⟩

/-- The constant comes before the method, and starts two lines behind it. -/
theorem not_pairwise_entities_decoratedClass :
    decoratedClassTree.IsNested ∧ decoratedClassTree.IsOrdered ∧
      ¬ (decoratedClass.entities decoratedClassTree none).Pairwise
        fun d e => d.lineFrom ≤ e.lineFrom := by
  refine ⟨by decide, by decide, fun hentities => ?_⟩
  obtain ⟨scope, hbody⟩ := exists_searched_decoratedBody
  obtain ⟨s, hs, hsline⟩ := exists_mem_childSites_decorator scope
  obtain ⟨t, ht, htline⟩ := exists_mem_childSites_method scope
  have hchildren : decoratedBodyPlace.namedChildren =
      [⟨methodComment, [0, 2, 1], []⟩, decoratorPlace, methodPlace] := rfl
  have hsublist : [decoratorPlace, methodPlace].Sublist decoratedBodyPlace.namedChildren := by
    rw [hchildren]
    exact List.sublist_cons_self _ _
  have hoverlooked : decoratedClass.Overlooks decoratedClassTree s t :=
    .intro hbody hsublist rfl (by decide) hs ht
  rw [entities_none, List.pairwise_map] at hentities
  have hle := hoverlooked.lineFrom_le hentities
  omega

end CodeCatalog.SourceFile
