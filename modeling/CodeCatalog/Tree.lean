import CodeCatalog.Text.Utf8
set_option autoImplicit false

/-!
# Syntax trees

A concrete syntax tree over the bytes of a source file, as a parser delivers it: every
node covers a range of bytes.  A node is looked at in its place, which knows the way from
the root and the named siblings before it.
-/

namespace CodeCatalog

/-- A node of a syntax tree.  Its field is its role in the parent, empty for none, and its
range of bytes goes from `start` up to but not including `stop`. -/
structure Node where
  type : String
  named : Bool
  field : String
  start : Nat
  stop : Nat
  children : List Node
  deriving Inhabited, Repr

mutual

/-- The number of nodes of a tree. -/
def Node.size : Node → Nat
  | ⟨_, _, _, _, _, children⟩ => Node.sizes children + 1

/-- The number of nodes of several trees. -/
def Node.sizes : List Node → Nat
  | [] => 0
  | n :: rest => Node.size n + Node.sizes rest

end

theorem Node.sizes_append (ms ns : List Node) :
    Node.sizes (ms ++ ns) = Node.sizes ms + Node.sizes ns := by
  induction ms with
  | nil => simp only [List.nil_append, Node.sizes]; omega
  | cons m ms ih => simp only [List.cons_append, Node.sizes, ih]; omega

theorem Node.sizes_reverse (ns : List Node) : Node.sizes ns.reverse = Node.sizes ns := by
  induction ns with
  | nil => rfl
  | cons n ns ih => simp only [List.reverse_cons, Node.sizes_append, Node.sizes, ih]; omega

/-- What a parser makes of a source file. -/
inductive ParserReply where
  | tree (root : Node)
  | noTree
  | failed (report : Text)
  deriving Inhabited

/-! ## Rows -/

/-- The byte of a line feed. -/
def newlineByte : UInt8 := 0x0A

namespace Source

/-- The bytes from one offset up to another; none if they are out of order. -/
def slice (source : Bytes) (start stop : Nat) : Bytes := (source.drop start).take (stop - start)

/-- The text between two offsets, read tolerantly. -/
def text (source : Bytes) (start stop : Nat) : Text :=
  Utf8.decodeTolerant (slice source start stop)

/-- The row of an offset: the number of line feeds before it. -/
def row (source : Bytes) (offset : Nat) : Nat := (source.take offset).count newlineByte

/-- The offset is the first of its row. -/
def atRowStart (source : Bytes) (offset : Nat) : Bool :=
  match (source.take offset).getLast? with
  | none => true
  | some b => b == newlineByte

end Source

namespace Node

variable (source : Bytes) (n : Node)

/-- The text that a node covers. -/
def text : Text := Source.text source n.start n.stop

/-- The row on which a node starts, counted from zero. -/
def startRow : Nat := Source.row source n.start

/-- The line on which a node starts, counted from one. -/
def startLine : Nat := n.startRow source + 1

/-- The line on which a node ends, counted from one.  A node that ends at the start of a row
below its first one does not reach into that row. -/
def endLine : Nat :=
  let row := Source.row source n.stop
  if Source.atRowStart source n.stop && n.startRow source < row then row else row + 1

/-- The named children in order. -/
def namedChildren : List Node := n.children.filter Node.named

end Node

/-! ## Places -/

/-- A node in its place: the child indices that lead to it from the root, and the named
siblings before it, the nearest first. -/
structure Place where
  node : Node
  way : List Nat
  before : List Node
  deriving Inhabited, Repr

namespace Place

/-- The place of the root. -/
def root (n : Node) : Place := ⟨n, [], []⟩

/-- The places of nodes that follow `index` siblings, the named ones of which are `before`. -/
def siblings (way : List Nat) (index : Nat) (before : List Node) : List Node → List Place
  | [] => []
  | n :: rest =>
    ⟨n, way ++ [index], before⟩
      :: siblings way (index + 1) (if n.named then n :: before else before) rest

/-- The children of a node in their places. -/
def children (p : Place) : List Place := siblings p.way 0 [] p.node.children

/-- The named children of a node in their places. -/
def namedChildren (p : Place) : List Place := p.children.filter fun c => c.node.named

/-- The first child with a given field. -/
def field? (p : Place) (field : String) : Option Place :=
  p.children.find? fun c => c.node.field == field

/-- The first child for the first of several fields that has one. -/
def firstField? (p : Place) (fields : List String) : Option Place :=
  fields.findSome? p.field?

/-- The first named child of one of several types. -/
def firstOfTypes? (p : Place) (types : List String) : Option Place :=
  p.namedChildren.find? fun c => types.contains c.node.type

/-- The child for a field or, without one, the named child of a type. -/
def part? (p : Place) (fields types : List String) : Option Place :=
  (p.firstField? fields).or (p.firstOfTypes? types)

theorem mem_siblings {way : List Nat} {c : Place} : ∀ {ns : List Node} {i : Nat}
    {before : List Node}, c ∈ siblings way i before ns → c.node ∈ ns
  | [], _, _, h => by simp [siblings] at h
  | n :: rest, i, before, h => by
    rcases List.mem_cons.1 h with rfl | h
    · exact List.mem_cons_self
    · exact List.mem_cons_of_mem _ (mem_siblings h)

theorem sizeOf_lt_of_mem_children {p c : Place} (h : c ∈ p.children) :
    sizeOf c.node < sizeOf p.node := by
  have hm := List.sizeOf_lt_of_mem (mem_siblings h)
  generalize p.node = n at hm ⊢
  cases n
  simp only [Node.mk.sizeOf_spec] at *
  omega

theorem mem_children_of_mem_namedChildren {p c : Place} (h : c ∈ p.namedChildren) :
    c ∈ p.children := (List.mem_filter.1 h).1

theorem mem_children_of_field? {p c : Place} {f : String} (h : p.field? f = some c) :
    c ∈ p.children := List.mem_of_find?_eq_some h

theorem mem_children_of_firstField? {p c : Place} {fs : List String}
    (h : p.firstField? fs = some c) : c ∈ p.children := by
  obtain ⟨f, _, hf⟩ := List.exists_of_findSome?_eq_some h
  exact mem_children_of_field? hf

theorem mem_children_of_part? {p c : Place} {fs ts : List String}
    (h : p.part? fs ts = some c) : c ∈ p.children := by
  rcases Option.or_eq_some_iff.1 h with h | ⟨_, h⟩
  · exact mem_children_of_firstField? h
  · exact mem_children_of_mem_namedChildren (List.mem_of_find?_eq_some h)

end Place

end CodeCatalog
