import CodeCatalog.Text
set_option autoImplicit false

/-!
# White space

The code points that count as white space when a text is trimmed: those with the
bidirectional class of a separator or the general category of a space.  The zero
width space and the byte order mark are not among them.
-/

namespace CodeCatalog

/-- The ranges of white space, ends included. -/
def blankRanges : List (Nat × Nat) :=
  [(0x9, 0xD), (0x1C, 0x20), (0x85, 0x85), (0xA0, 0xA0), (0x1680, 0x1680), (0x2000, 0x200A),
   (0x2028, 0x2029), (0x202F, 0x202F), (0x205F, 0x205F), (0x3000, 0x3000)]

/-- A code point that is white space. -/
def Glyph.isBlank (g : Glyph) : Bool := g.within blankRanges

namespace Text

/-- Drops the white space at the start. -/
def trimStart (t : Text) : Text := t.dropWhile Glyph.isBlank

/-- Drops the white space at the end. -/
def trimEnd (t : Text) : Text := dropEndWhile Glyph.isBlank t

/-- Drops the white space at both ends. -/
def trim (t : Text) : Text := trimWhile Glyph.isBlank t

/-- A text of white space alone; the empty text is one. -/
def isBlank (t : Text) : Bool := t.all Glyph.isBlank

end Text

end CodeCatalog
