import CodeCatalog.Text
set_option autoImplicit false

/-!
# Paths

A path is a root and its components.  Empty components and single dots are dropped when
one is read, double dots are kept.  The last component is the name; its suffix starts at
the last dot that neither begins nor ends the name, and the stem is what comes before.
-/

namespace CodeCatalog

/-- A path: its root, which is empty, `/` or `//`, and its components. -/
structure Path where
  root : Text
  parts : List Text
  deriving DecidableEq, Repr

namespace Path

/-- The separator of components. -/
def separator : Glyph := .scalar '/'

/-- The root of the path that a text spells: two leading separators are a root of their own,
and any other number of them is one. -/
def rootOf (t : Text) : Text :=
  match (t.takeWhile (· == separator)).length with
  | 0 => []
  | 2 => [separator, separator]
  | _ => [separator]

/-- The components that a text spells. -/
def partsOf (t : Text) : List Text :=
  (t.splitOn separator).filter fun part => !(part.isEmpty || part == ".")

/-- The components of the target of a link.  A separator at the end, told by an empty component,
and a dot at the end ask for a folder. -/
def targetParts (t : Text) : List Text :=
  match partsOf t, (t.splitOn separator).getLast? with
  | [], _ => []
  | parts, some last => if last.isEmpty || last == "." then parts ++ [last] else parts
  | parts, none => parts

/-- Reads a path. -/
def parse (t : Text) : Path := ⟨rootOf t, partsOf t⟩

/-- The text of a path; a path without root and components is a dot. -/
def text (p : Path) : Text :=
  if p.root.isEmpty && p.parts.isEmpty then "."
  else p.root ++ Text.joinWith [separator] p.parts

/-- The last component; empty if there is none. -/
def name (p : Path) : Text := p.parts.getLastD []

/-- The path without its last component. -/
def parent (p : Path) : Path := ⟨p.root, p.parts.dropLast⟩

/-- The path of an entry of a directory. -/
def child (p : Path) (name : Text) : Path := ⟨p.root, p.parts ++ [name]⟩

/-- A path from another one's end; a path with a root stands for itself. -/
def join (p q : Path) : Path :=
  if q.root.isEmpty then ⟨p.root, p.parts ++ q.parts⟩ else q

/-- The dot. -/
def dot : Glyph := .scalar '.'

/-- The number of code points before the last dot of a name, if it has one. -/
def lastDot? (name : Text) : Option Nat :=
  if name.contains dot then some (name.length - 1 - (name.reverse.takeWhile (· != dot)).length)
  else none

/-- Cuts a name into stem and suffix. -/
def cutSuffix (name : Text) : Text × Text :=
  match lastDot? name with
  | some i => if 0 < i ∧ i < name.length - 1 then (name.take i, name.drop i) else (name, [])
  | none => (name, [])

/-- The name without its suffix. -/
def stem (p : Path) : Text := (cutSuffix p.name).1

/-- The suffix of the name with its dot; empty if there is none. -/
def suffix (p : Path) : Text := (cutSuffix p.name).2

end Path

end CodeCatalog
