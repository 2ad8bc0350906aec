import CodeCatalog.Text
set_option autoImplicit false

/-!
# Doubles

Binary floating-point numbers of 64 bits, held as their bits, so that two of them are
equal exactly when they are the same number with the same sign and payload.  A finite
number is `magnitude * 2 ^ scale` with natural `magnitude`; rounding a quotient to the
nearest number, ties to even, is done in exact arithmetic.
-/

namespace CodeCatalog

/-- A power of two. -/
def twoTo (n : Nat) : Nat := Nat.pow 2 n

/-- A power of ten. -/
def tenTo (n : Nat) : Nat := Nat.pow 10 n

/-- A 64-bit floating-point number by its bits. -/
structure Double where
  bits : UInt64
  deriving DecidableEq, Repr, Inhabited

namespace Double

/-- The machine's number. -/
def toFloat (x : Double) : Float := Float.ofBits x.bits

/-- The bits of infinity without its sign. -/
def infinityBits : Nat := 0x7FF0000000000000

/-- The bits without the sign. -/
def magnitudeBits (x : Double) : Nat := x.bits.toNat % twoTo 63

/-- The sign is set. -/
def isNegative (x : Double) : Bool := twoTo 63 ≤ x.bits.toNat

/-- Not a number. -/
def isNaN (x : Double) : Bool := infinityBits < x.magnitudeBits

/-- Positive or negative infinity. -/
def isInfinite (x : Double) : Bool := x.magnitudeBits == infinityBits

/-- Positive or negative zero. -/
def isZero (x : Double) : Bool := x.magnitudeBits == 0

/-- Neither infinite nor not a number. -/
def isFinite (x : Double) : Bool := x.magnitudeBits < infinityBits

/-- The number with given bits below the sign. -/
def ofMagnitudeBits (negative : Bool) (n : Nat) : Double :=
  ⟨UInt64.ofNat (if negative then twoTo 63 + n else n)⟩

/-- Positive zero. -/
def zero : Double := ⟨0⟩

/-- One. -/
def one : Double := ⟨0x3FF0000000000000⟩

/-- An infinity. -/
def infinity (negative : Bool) : Double := ofMagnitudeBits negative infinityBits

/-- The quiet value that is not a number, with a sign. -/
def nan (negative : Bool) : Double := ofMagnitudeBits negative 0x7FF8000000000000

/-- The integer significand of a finite number. -/
def significand (x : Double) : Nat :=
  if x.magnitudeBits < twoTo 52 then x.magnitudeBits
  else x.magnitudeBits % twoTo 52 + twoTo 52

/-- The power of two that scales the significand of a finite number. -/
def scale (x : Double) : Int :=
  if x.magnitudeBits < twoTo 52 then -1074
  else (x.magnitudeBits / twoTo 52 : Nat) - 1075

/-- `num / den` rounded to an integer, a tie to the even neighbour. -/
def roundQuotient (num den : Nat) : Nat :=
  let q := num / den
  let r := num % den
  if 2 * r < den then q
  else if den < 2 * r then q + 1
  else q + q % 2

/-- The power of two by which `num / den` is divided before it is rounded to 53 bits; it
does not go below the scale of the least numbers. -/
def roundingScale (num den : Nat) : Int :=
  let guess : Int := max ((Nat.log2 num : Int) - Nat.log2 den - 53) (-1074)
  if num * twoTo (-guess).toNat < twoTo 53 * (den * twoTo guess.toNat) then guess else guess + 1

/-- The number nearest to `num / den`, ties to even, with infinity beyond the last. -/
def ofRatio (negative : Bool) (num den : Nat) : Double :=
  if num = 0 then ofMagnitudeBits negative 0
  else
    let q := roundingScale num den
    let m := roundQuotient (num * twoTo (-q).toNat) (den * twoTo q.toNat)
    ofMagnitudeBits negative (min infinityBits ((q + 1074).toNat * twoTo 52 + m))

/-- The number nearest to `digits * 10 ^ exponent`. -/
def ofDecimal (negative : Bool) (digits : Nat) (exponent : Int) : Double :=
  if digits = 0 then ofMagnitudeBits negative 0
  else
    let magnitude : Int := exponent + (Nat.toDigits 10 digits).length
    if 400 < magnitude then infinity negative
    else if magnitude < -400 then ofMagnitudeBits negative 0
    else ofRatio negative (digits * tenTo exponent.toNat) (tenTo (-exponent).toNat)

/-- The number nearest to an integer, if it is not beyond the last. -/
def ofInt? (i : Int) : Option Double :=
  let x := ofRatio (i < 0) i.natAbs 1
  if x.isFinite then some x else none

/-- The number nearest to a natural number; infinity beyond the last. -/
def ofNat (n : Nat) : Double := ofRatio false n 1

/-- The integer part of a finite number, toward zero. -/
def truncate (x : Double) : Int :=
  let m := x.significand * twoTo x.scale.toNat / twoTo (-x.scale).toNat
  if x.isNegative then -m else m

/-- A finite number without a fractional part. -/
def isIntegral (x : Double) : Bool :=
  x.isFinite && x.significand * twoTo x.scale.toNat % twoTo (-x.scale).toNat == 0

/-- The greatest integer that is not above a finite number. -/
def floor (x : Double) : Int :=
  if x.isNegative && !x.isIntegral then x.truncate - 1 else x.truncate

/-- Puts back the payload that an operation on numbers keeps: an operand that is not a
number is the result, and a result that is none although the operands are is the
negative quiet value. -/
def settle (x y : Double) (result : Float) : Double :=
  if x.isNaN then x
  else if y.isNaN then y
  else if result.isNaN then nan true
  else ⟨result.toBits⟩

/-- The rounded sum. -/
def add (x y : Double) : Double := settle x y (x.toFloat + y.toFloat)

/-- The rounded product. -/
def mul (x y : Double) : Double := settle x y (x.toFloat * y.toFloat)

/-- The order of numbers; nothing is below or above what is not a number. -/
def lt (x y : Double) : Bool := x.toFloat < y.toFloat

/-- The order of numbers with equality. -/
def le (x y : Double) : Bool := x.toFloat ≤ y.toFloat

/-- A power with a natural exponent; nothing when a finite base leaves the finite
numbers. -/
def pow? (x : Double) (n : Nat) : Option Double :=
  let y : Double := ⟨(Float.pow x.toFloat n.toFloat).toBits⟩
  if x.isFinite && y.isInfinite then none else some y

/-- The difference of the natural logarithms of two numbers. -/
def logarithmsApart (x y : Double) : Float := Float.log x.toFloat - Float.log y.toFloat

/-- Whether a number that starts at `start` and grows by a factor has reached a limit after `n`
steps, as the logarithms tell; nothing is told of numbers that do not grow. -/
def reaches (start factor limit : Double) (n : Nat) : Bool :=
  one.lt factor && zero.lt start && zero.lt limit
    && decide (limit.logarithmsApart start / factor.logarithmsApart one ≤ n.toFloat)

end Double

end CodeCatalog
