import CodeCatalog.Text
set_option autoImplicit false

/-!
# Decimal digits

The decimal digits of all scripts.  The digits of a script stand in a run of ten,
so the zeros determine them.
-/

namespace CodeCatalog

/-- The digit zero of every script that has decimal digits. -/
def digitZeros : List Nat :=
  [0x30, 0x660, 0x6F0, 0x7C0, 0x966, 0x9E6, 0xA66, 0xAE6, 0xB66, 0xBE6, 0xC66, 0xCE6, 0xD66,
   0xDE6, 0xE50, 0xED0, 0xF20, 0x1040, 0x1090, 0x17E0, 0x1810, 0x1946, 0x19D0, 0x1A80, 0x1A90,
   0x1B50, 0x1BB0, 0x1C40, 0x1C50, 0xA620, 0xA8D0, 0xA900, 0xA9D0, 0xA9F0, 0xAA50, 0xABF0, 0xFF10,
   0x104A0, 0x10D30, 0x11066, 0x110F0, 0x11136, 0x111D0, 0x112F0, 0x11450, 0x114D0, 0x11650,
   0x116C0, 0x11730, 0x118E0, 0x11950, 0x11C50, 0x11D50, 0x11DA0, 0x16A60, 0x16AC0, 0x16B50,
   0x1D7CE, 0x1D7D8, 0x1D7E2, 0x1D7EC, 0x1D7F6, 0x1E140, 0x1E2F0, 0x1E950, 0x1FBF0]

/-- The value of a decimal digit of any script. -/
def Glyph.digit? (g : Glyph) : Option Nat :=
  (digitZeros.find? fun z => z ≤ g.code && g.code < z + 10).map (g.code - ·)

/-- A decimal digit of any script. -/
def Glyph.isDigit (g : Glyph) : Bool := g.digit?.isSome

/-- The value of an ASCII digit. -/
def Glyph.asciiDigit? (g : Glyph) : Option Nat :=
  if 0x30 ≤ g.code && g.code < 0x3A then some (g.code - 0x30) else none

/-- The ASCII digit of a value below ten. -/
def Glyph.ofDigit (d : Nat) : Glyph := .scalar (Char.ofNat (0x30 + d))

end CodeCatalog
