import CodeCatalog.Value
set_option autoImplicit false

/-!
# Printing a document

The text of a value as a document with one item or member a line, indented by two
spaces a level.  Code points are kept as they are, except for the quote, the
backslash and the controls.

A document is produced in pieces, and each piece is written before the next one is
made: `Printed` holds the pieces up to the end or up to the first value that has no
JSON form.  An integer with too many digits has none.
-/

namespace CodeCatalog.Value

/-- The pieces of a document in order, and the fault that stopped the printing, if any. -/
structure Printed where
  pieces : List Text
  fault : Option DataFault

namespace Printed

/-- One piece. -/
def piece (t : Text) : Printed := ⟨[t], none⟩

/-- One piece, unless it cannot be made. -/
def attempt : Except DataFault Text → Printed
  | .ok t => piece t
  | .error f => ⟨[], some f⟩

/-- No piece. -/
def empty : Printed := ⟨[], none⟩

/-- Printing goes on after a first part unless it was stopped. -/
def append (a b : Printed) : Printed :=
  match a.fault with
  | some f => ⟨a.pieces, some f⟩
  | none => ⟨a.pieces ++ b.pieces, b.fault⟩

instance : Append Printed := ⟨append⟩

/-- The whole text, or the fault that stopped the printing. -/
def text (p : Printed) : Except DataFault Text :=
  match p.fault with
  | some f => .error f
  | none => .ok p.pieces.flatten

end Printed

/-- A code point inside a string of a document. -/
def jsonGlyph (g : Glyph) : Text :=
  match g with
  | .scalar '"' => "\\\""
  | .scalar '\\' => "\\\\"
  | .scalar '\n' => "\\n"
  | .scalar '\r' => "\\r"
  | .scalar '\t' => "\\t"
  | .scalar '\x0C' => "\\f"
  | .scalar '\x08' => "\\b"
  | g => if g.code < 0x20 then "\\u" ++ Text.hexDigits 4 g.code else [g]

/-- A string of a document. -/
def jsonString (t : Text) : Text := "\"" ++ t.flatMap jsonGlyph ++ "\""

/-- A line feed and the indentation of a level. -/
def lineBreak (level : Nat) : Text := .scalar '\n' :: List.replicate (2 * level) (.scalar ' ')

/-- An integer does not have too many digits for a document. -/
def isShort (i : Int) : Bool := (Text.ofNat i.natAbs).length ≤ Text.maxIntegerDigits

/-- An integer of a document. -/
def jsonInt (i : Int) : Except DataFault Text :=
  if isShort i then .ok (Text.ofInt i) else .error (.longInteger none)

/-- The text of a value that is written in one piece. -/
def jsonScalar? : Value → Option (Except DataFault Text)
  | .null => some (.ok "null")
  | .bool b => some (.ok (if b then "true" else "false"))
  | .int i => some (jsonInt i)
  | .float x => some (.ok (Double.indexLayout.text x))
  | .text t => some (.ok (jsonString t))
  | _ => none

mutual

/-- Prints a value at a level of indentation. -/
def print (level : Nat) : Value → Printed
  | .list [] => .piece "[]"
  | .list items =>
    printItems (level + 1) ("[" ++ lineBreak (level + 1)) items
      ++ ⟨[lineBreak level, "]"], none⟩
  | .object [] => .piece "\x7b\x7d"
  | .object members =>
    .piece "\x7b" ++ printMembers (level + 1) (lineBreak (level + 1)) members
      ++ ⟨[lineBreak level, "\x7d"], none⟩
  | .foreign => ⟨[], some (.unserializable "object")⟩
  | .null => .piece "null"
  | .bool b => .piece (if b then "true" else "false")
  | .int i => .attempt (jsonInt i)
  | .float x => .piece (Double.indexLayout.text x)
  | .text t => .piece (jsonString t)

/-- Prints the items of a list at a level, the first one after `opening`. -/
def printItems (level : Nat) (opening : Text) : List Value → Printed
  | [] => .empty
  | v :: rest =>
    (match v.jsonScalar? with
      | some t => .attempt (t.map (opening ++ ·))
      | none => .piece opening ++ print level v)
      ++ printItems level ("," ++ lineBreak level) rest

/-- Prints the members of an object at a level, the first one after `opening`. -/
def printMembers (level : Nat) (opening : Text) : List (Text × Value) → Printed
  | [] => .empty
  | (key, v) :: rest =>
    ⟨[opening, jsonString key, ": "], none⟩ ++ print level v
      ++ printMembers level ("," ++ lineBreak level) rest

end

mutual

/-- Whether a value has a JSON form: nothing in it is foreign, and no integer has too many
digits. -/
def isSerializable : Value → Bool
  | .list items => areSerializable items
  | .object members => haveSerializable members
  | .foreign => false
  | .int i => isShort i
  | _ => true

/-- Whether the items of a list have a JSON form. -/
def areSerializable : List Value → Bool
  | [] => true
  | v :: rest => isSerializable v && areSerializable rest

/-- Whether the members of an object have a JSON form. -/
def haveSerializable : List (Text × Value) → Bool
  | [] => true
  | (_, v) :: rest => isSerializable v && haveSerializable rest

end

end CodeCatalog.Value
