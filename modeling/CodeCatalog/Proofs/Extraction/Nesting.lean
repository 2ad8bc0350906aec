import CodeCatalog.Tree
set_option autoImplicit false

/-!
# Nested ranges

The nodes of a tree, and what it means that the ranges of bytes of its nodes are nested and ordered:
that of a child lies inside that of its parent, and behind those of the children before it.  What is
found below a node depends on the node alone, and not on the place where it stands.
-/

namespace CodeCatalog

namespace Node

/-! ## The nodes of a tree -/

mutual

/-- The nodes of a tree, each before those below it. -/
def nodes : Node → List Node
  | ⟨type, named, field, start, stop, children⟩ =>
    ⟨type, named, field, start, stop, children⟩ :: nodesOf children

/-- The nodes of several trees. -/
def nodesOf : List Node → List Node
  | [] => []
  | n :: rest => nodes n ++ nodesOf rest

end

theorem nodes_eq_cons (n : Node) : n.nodes = n :: nodesOf n.children := by
  cases n
  rfl

theorem nodesOf_eq_flatMap (ns : List Node) : nodesOf ns = ns.flatMap nodes := by
  induction ns with
  | nil => rfl
  | cons n rest ih => rw [nodesOf, ih, List.flatMap_cons]

theorem mem_nodes_self (n : Node) : n ∈ n.nodes := by
  rw [nodes_eq_cons]
  exact List.mem_cons_self

/-- The nodes of a node of a tree are nodes of the tree. -/
theorem mem_nodes_trans : ∀ {root n m : Node}, n ∈ root.nodes → m ∈ n.nodes → m ∈ root.nodes
  | ⟨type, named, field, start, stop, children⟩, n, m, hn, hm => by
    rw [nodes_eq_cons] at hn ⊢
    rcases List.mem_cons.1 hn with rfl | hn
    · rwa [nodes_eq_cons] at hm
    · rw [nodesOf_eq_flatMap] at hn ⊢
      obtain ⟨child, hchild, hn⟩ := List.mem_flatMap.1 hn
      have hm' : m ∈ child.nodes := mem_nodes_trans hn hm
      exact List.mem_cons_of_mem _ (List.mem_flatMap.2 ⟨child, hchild, hm'⟩)

theorem mem_nodes_of_mem_children {root n c : Node} (hn : n ∈ root.nodes) (hc : c ∈ n.children) :
    c ∈ root.nodes := by
  refine mem_nodes_trans hn ?_
  rw [nodes_eq_cons, nodesOf_eq_flatMap]
  exact List.mem_cons_of_mem _ (List.mem_flatMap.2 ⟨c, hc, c.mem_nodes_self⟩)

/-! ## Ranges -/

/-- The range of a node lies inside that of another one. -/
structure Inside (c n : Node) : Prop where
  start_le : n.start ≤ c.start
  stop_le : c.stop ≤ n.stop

instance (c n : Node) : Decidable (c.Inside n) :=
  decidable_of_iff (n.start ≤ c.start ∧ c.stop ≤ n.stop)
    ⟨fun h => ⟨h.1, h.2⟩, fun h => ⟨h.start_le, h.stop_le⟩⟩

theorem Inside.refl (n : Node) : n.Inside n := ⟨Nat.le_refl _, Nat.le_refl _⟩

theorem Inside.trans {a b c : Node} (hab : a.Inside b) (hbc : b.Inside c) : a.Inside c :=
  ⟨Nat.le_trans hbc.start_le hab.start_le, Nat.le_trans hab.stop_le hbc.stop_le⟩

/-- The range of each child lies inside that of its parent. -/
def IsNested (root : Node) : Prop := ∀ n ∈ root.nodes, ∀ c ∈ n.children, c.Inside n

instance (root : Node) : Decidable root.IsNested :=
  inferInstanceAs (Decidable (∀ n ∈ root.nodes, ∀ c ∈ n.children, c.Inside n))

/-- No node stops before it starts, and the children of a node come one behind the other. -/
def IsOrdered (root : Node) : Prop :=
  ∀ n ∈ root.nodes, n.start ≤ n.stop ∧ n.children.Pairwise fun c d => c.stop ≤ d.start

instance (root : Node) : Decidable root.IsOrdered :=
  inferInstanceAs (Decidable (∀ n ∈ root.nodes,
    n.start ≤ n.stop ∧ n.children.Pairwise fun c d => c.stop ≤ d.start))

end Node

/-! ## What is found below a node -/

namespace Place

theorem map_node_siblings (way : List Nat) (i : Nat) (before ns : List Node) :
    (siblings way i before ns).map node = ns := by
  induction ns generalizing i before with
  | nil => rfl
  | cons n rest ih => rw [siblings, List.map_cons, ih]

theorem map_node_children (p : Place) : p.children.map node = p.node.children :=
  map_node_siblings _ _ _ _

theorem map_node_namedChildren (p : Place) : p.namedChildren.map node = p.node.namedChildren := by
  rw [Node.namedChildren, ← map_node_children, List.filter_map]
  rfl

theorem node_mem_children {p c : Place} (h : c ∈ p.children) : c.node ∈ p.node.children := by
  rw [← map_node_children]
  exact List.mem_map_of_mem h

theorem node_mem_children_of_mem_namedChildren {p c : Place} (h : c ∈ p.namedChildren) :
    c.node ∈ p.node.children :=
  node_mem_children (mem_children_of_mem_namedChildren h)

theorem map_node_field? (p : Place) (field : String) :
    (p.field? field).map node = p.node.children.find? fun n => n.field == field := by
  rw [← map_node_children, List.find?_map]
  rfl

theorem map_node_firstField? (p : Place) (fields : List String) :
    (p.firstField? fields).map node =
      fields.findSome? fun field => p.node.children.find? fun n => n.field == field := by
  induction fields with
  | nil => rfl
  | cons field rest ih =>
    have hfield := p.map_node_field? field
    rw [firstField?] at ih ⊢
    rw [List.findSome?_cons, List.findSome?_cons, ← hfield]
    cases p.field? field with
    | none => exact ih
    | some c => rfl

theorem map_node_firstOfTypes? (p : Place) (types : List String) :
    (p.firstOfTypes? types).map node =
      p.node.namedChildren.find? fun n => types.contains n.type := by
  rw [← map_node_namedChildren, List.find?_map]
  rfl

theorem map_node_part? (p : Place) (fields types : List String) :
    (p.part? fields types).map node = ((root p.node).part? fields types).map node := by
  rw [part?, part?, Option.map_or, Option.map_or, map_node_firstField?, map_node_firstField?,
    map_node_firstOfTypes?, map_node_firstOfTypes?]
  rfl

/-! ## What stands before a node -/

theorem exists_before_of_mem_siblings {way : List Nat} {c : Place} {ns : List Node} {i : Nat}
    {before : List Node} (h : c ∈ siblings way i before ns) :
    ∃ l r, ns = l ++ c.node :: r ∧ c.before = (l.filter Node.named).reverse ++ before := by
  induction ns generalizing i before with
  | nil => exact absurd h List.not_mem_nil
  | cons n rest ih =>
    rcases List.mem_cons.1 h with rfl | h
    · exact ⟨[], rest, rfl, rfl⟩
    · obtain ⟨l, r, rfl, hbefore⟩ := ih h
      refine ⟨n :: l, r, rfl, ?_⟩
      rw [hbefore]
      cases hn : n.named <;> simp [hn]

/-- The nodes before a child are the named children on its left, the nearest first. -/
theorem exists_before_of_mem_children {p c : Place} (h : c ∈ p.children) :
    ∃ l r, p.node.children = l ++ c.node :: r ∧ c.before = (l.filter Node.named).reverse := by
  obtain ⟨l, r, hchildren, hbefore⟩ := exists_before_of_mem_siblings h
  exact ⟨l, r, hchildren, by rw [hbefore, List.append_nil]⟩

theorem mem_children_of_mem_before {p c : Place} (h : c ∈ p.children) {n : Node}
    (hn : n ∈ c.before) : n ∈ p.node.children := by
  obtain ⟨l, r, hchildren, hbefore⟩ := exists_before_of_mem_children h
  rw [hbefore, List.mem_reverse] at hn
  rw [hchildren]
  exact List.mem_append_left _ (List.mem_filter.1 hn).1

theorem mem_before_of_sublist_siblings {way : List Nat} {c d : Place} (hc : c.node.named = true)
    {ns : List Node} {i : Nat} {before : List Node}
    (h : [c, d].Sublist (siblings way i before ns)) : c.node ∈ d.before := by
  induction ns generalizing i before with
  | nil => exact absurd (h.subset List.mem_cons_self) List.not_mem_nil
  | cons n rest ih =>
    rw [siblings, List.sublist_cons_iff] at h
    rcases h with h | ⟨tail, heq, h⟩
    · exact ih h
    · cases heq
      obtain ⟨l, r, -, hbefore⟩ := exists_before_of_mem_siblings (h.subset List.mem_cons_self)
      have hnamed : n.named = true := hc
      rw [hbefore, hnamed]
      exact List.mem_append_right _ List.mem_cons_self

/-- A named child stands before those that come later. -/
theorem mem_before_of_sublist {p c d : Place} (h : [c, d].Sublist p.namedChildren) :
    c.node ∈ d.before := by
  have hc : c ∈ p.namedChildren := h.subset List.mem_cons_self
  exact mem_before_of_sublist_siblings (List.mem_filter.1 hc).2
    (h.trans List.filter_sublist)

section

variable {root : Node} {p c : Place}

theorem stop_le_start_of_mem_before (hroot : root.IsOrdered) (hp : p.node ∈ root.nodes)
    (h : c ∈ p.children) {n : Node} (hn : n ∈ c.before) : n.stop ≤ c.node.start := by
  obtain ⟨l, r, hchildren, hbefore⟩ := exists_before_of_mem_children h
  have hordered := (hroot p.node hp).2
  rw [hchildren] at hordered
  rw [hbefore, List.mem_reverse] at hn
  exact (List.pairwise_append.1 hordered).2.2 n (List.mem_filter.1 hn).1 c.node
    List.mem_cons_self

/-- The nearest of the nodes before a child come last. -/
theorem pairwise_before (hroot : root.IsOrdered) (hp : p.node ∈ root.nodes) (h : c ∈ p.children) :
    c.before.Pairwise fun m n => n.stop ≤ m.start := by
  obtain ⟨l, r, hchildren, hbefore⟩ := exists_before_of_mem_children h
  have hordered := (hroot p.node hp).2
  rw [hchildren] at hordered
  rw [hbefore, List.pairwise_reverse]
  exact (List.pairwise_append.1 hordered).1.filter _

end

end Place

end CodeCatalog
