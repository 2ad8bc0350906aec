import CodeCatalog.Text.Blank
import CodeCatalog.Text.Digit
import CodeCatalog.Double
set_option autoImplicit false

/-!
# Numerals in text

Reading an integer or a decimal from a text that a person wrote: white space may
stand around it, the digits may be those of any script, and a single underscore may
stand between two digits.
-/

namespace CodeCatalog.Text

/-- White space that may stand around a numeral: the information separators may not. -/
def numeralBlank (g : Glyph) : Bool := g.isBlank && !g.within [(0x1C, 0x1F)]

/-- A text with the digits of all scripts as ASCII digits and without the white space
around it. -/
def numeralBody (t : Text) : Text :=
  (trimWhile numeralBlank t).map fun g =>
    match g.digit? with
    | some d => Glyph.ofDigit d
    | none => g

/-- Drops the underscores of a text if each stands between two digits; `afterDigit` says
whether a digit precedes. -/
def dropUnderscores? (afterDigit : Bool) : Text → Option Text
  | [] => some []
  | g :: rest =>
    if g = .scalar '_' then
      match afterDigit, rest with
      | true, next :: _ =>
        if next.asciiDigit?.isSome then dropUnderscores? false rest else none
      | _, _ => none
    else (dropUnderscores? g.asciiDigit?.isSome rest).map (g :: ·)

/-- The sign of a numeral and what follows it. -/
def takeSign : Text → Bool × Text
  | .scalar '-' :: rest => (true, rest)
  | .scalar '+' :: rest => (false, rest)
  | t => (false, t)

/-- The leading ASCII digits of a text and what follows them. -/
def takeDigits (t : Text) : List Nat × Text :=
  ((t.takeWhile fun g => g.asciiDigit?.isSome).filterMap Glyph.asciiDigit?,
    t.dropWhile fun g => g.asciiDigit?.isSome)

/-- The number of a list of decimal digits. -/
def digitsValue (ds : List Nat) : Nat := ds.foldl (fun n d => n * 10 + d) 0

/-- The greatest number of digits in which an integer is read. -/
def maxIntegerDigits : Nat := 4300

/-- What a text says when it is read as an integer. -/
inductive IntegerReading where
  | value (i : Int)
  | malformed
  | tooLong (digits : Nat)
  deriving DecidableEq, Repr

/-- A digit or an underscore. -/
def isNumeralGlyph (g : Glyph) : Bool := g.asciiDigit?.isSome || g == .scalar '_'

/-- Reads an integer: a sign, then digits.  Too many digits are told of even if something else
follows them. -/
def readInteger (t : Text) : IntegerReading :=
  let signed := takeSign (numeralBody t)
  match dropUnderscores? false (signed.2.takeWhile isNumeralGlyph) with
  | none => .malformed
  | some digits =>
    if digits.isEmpty then .malformed
    else if maxIntegerDigits < digits.length then .tooLong digits.length
    else if signed.2.all isNumeralGlyph then
      let n := digitsValue (digits.filterMap Glyph.asciiDigit?)
      .value (if signed.1 then -n else n)
    else .malformed

/-- The ASCII letters of a text in lower case. -/
def asciiLower (t : Text) : Text :=
  t.map fun
    | .scalar c => .scalar c.toLower
    | g => g

/-- Reads an exponent: nothing, or `e`, a sign and digits up to the end. -/
def readExponent? (t : Text) : Option Int :=
  match t with
  | [] => some 0
  | g :: rest =>
    if g = .scalar 'e' ∨ g = .scalar 'E' then
      let signed := takeSign rest
      match takeDigits signed.2 with
      | ([], _) => none
      | (ds, []) => some (if signed.1 then -(digitsValue ds) else digitsValue ds)
      | _ => none
    else none

/-- Reads the digits, the point and the exponent of a number without its sign. -/
def readUnsigned? (negative : Bool) (t : Text) : Option Double :=
  let whole := takeDigits t
  let fraction := match whole.2 with
    | .scalar '.' :: rest => takeDigits rest
    | rest => ([], rest)
  if whole.1.isEmpty && fraction.1.isEmpty then none
  else (readExponent? fraction.2).map fun e =>
    Double.ofDecimal negative (digitsValue (whole.1 ++ fraction.1)) (e - fraction.1.length)

/-- Reads a number: a decimal, or a name of infinity or of what is not a number. -/
def readDouble? (t : Text) : Option Double :=
  let signed := takeSign (numeralBody t)
  let word := asciiLower signed.2
  if word = "inf" ∨ word = "infinity" then some (Double.infinity signed.1)
  else if word = "nan" then some (Double.nan signed.1)
  else (dropUnderscores? false signed.2).bind (readUnsigned? signed.1)

end CodeCatalog.Text
