import CodeCatalog.Double
set_option autoImplicit false

/-!
# Shortest decimals

The decimal text of a number: the fewest digits that read back as the number and,
among those, the nearest.  The reals that round to a number form an interval, whose
ends belong to it when the significand is even.  A grid of decimals, the multiples of
a power of ten, meets the interval only if one of the value's two neighbours on the
grid lies in it, so the coarsest grid with such a neighbour gives the digits.
-/

namespace CodeCatalog.Double

/-- The value of a positive number and the interval that rounds to it, over a common
denominator. -/
structure Interval where
  low : Nat
  value : Nat
  high : Nat
  den : Nat
  closed : Bool
  deriving Repr

/-- The interval of a positive finite number.  Below a power of two the numbers lie twice
as dense, so there the lower end is nearer. -/
def interval (x : Double) : Interval :=
  let m := x.significand
  let q := x.scale
  let narrow := m == twoTo 52 && -1074 < q
  let up := twoTo (q - 2).toNat
  ⟨(4 * m - if narrow then 1 else 2) * up, 4 * m * up, (4 * m + 2) * up,
    twoTo (2 - q).toNat, m % 2 == 0⟩

/-- The number of digits before the decimal point of `num / den`; not positive when the
quotient is below one tenth. -/
def pointPosition (num den : Nat) : Int :=
  if den ≤ num then (Nat.toDigits 10 (num / den)).length
  else
    let zeros := (Nat.toDigits 10 (den / num)).length
    if den ≤ num * tenTo (zeros - 1) then 2 - zeros else 1 - zeros

/-- The multiple of `10 ^ e` nearest to the value among its two neighbours that lie in the
interval; of two equally near ones the even multiple. -/
def Interval.onGrid? (i : Interval) (e : Int) : Option Nat :=
  let up := tenTo (-e).toNat
  let unit := i.den * tenTo e.toNat
  let inside (n : Nat) : Bool :=
    if i.closed then i.low * up ≤ n * unit && n * unit ≤ i.high * up
    else i.low * up < n * unit && n * unit < i.high * up
  let below := i.value * up / unit
  let above := below + 1
  match 0 < below && inside below, inside above with
  | false, false => none
  | true, false => some below
  | false, true => some above
  | true, true =>
    let twice := 2 * (i.value * up)
    let middle := (below + above) * unit
    if twice < middle then some below
    else if middle < twice then some above
    else some (if below % 2 == 0 then below else above)

/-- The first grid with a hit among those of `count` and more digits. -/
def Interval.search (i : Interval) (point : Int) : (tries count : Nat) → Nat × Int
  | 0, _ => (0, 0)
  | tries + 1, count =>
    match i.onGrid? (point - count) with
    | some n => (n, point - count)
    | none => i.search point tries (count + 1)

/-- The digits and the exponent of a positive finite number: it reads back from
`digits * 10 ^ exponent`. -/
def shortest (x : Double) : Nat × Int :=
  let i := x.interval
  i.search (pointPosition i.value i.den) 18 1

/-- How a decimal is laid out. -/
structure Layout where
  /-- The least power of ten of the first digit that is written with a point. -/
  least : Int
  /-- The power of ten of the first digit from which an exponent is written. -/
  limit : Int
  /-- The least number of digits of an exponent. -/
  exponentDigits : Nat
  notANumber : String
  infinite : String

/-- The layout of numbers in documents and messages: a point from 0.0001 up to below
10 ^ 16, and otherwise an exponent of two or more digits with a sign. -/
def messageLayout : Layout := ⟨-4, 16, 2, "nan", "inf"⟩

/-- The layout of an index file, which names the infinities in full. -/
def indexLayout : Layout := ⟨-4, 16, 2, "NaN", "Infinity"⟩

/-- The text of digits whose first one has the power of ten `first`. -/
def Layout.digits (l : Layout) (ds : List Char) (first : Int) : List Char :=
  if l.least ≤ first && first < l.limit then
    if first < 0 then '0' :: '.' :: List.replicate (-first - 1).toNat '0' ++ ds
    else
      let whole := first.toNat + 1
      if ds.length ≤ whole then ds ++ List.replicate (whole - ds.length) '0' ++ ['.', '0']
      else ds.take whole ++ '.' :: ds.drop whole
  else
    let exponent := Nat.toDigits 10 first.natAbs
    let padded := List.replicate (l.exponentDigits - exponent.length) '0' ++ exponent
    let point := if ds.length = 1 then ds else ds.take 1 ++ '.' :: ds.drop 1
    point ++ 'e' :: (if first < 0 then '-' else '+') :: padded

/-- Digits without the zeros at their end. -/
def dropTrailingZeros (ds : List Char) : List Char :=
  (ds.reverse.dropWhile (· == '0')).reverse

/-- The text of a number. -/
def Layout.text (l : Layout) (x : Double) : Text :=
  if x.isNaN then l.notANumber
  else
    let sign : Text := if x.isNegative then "-" else []
    if x.isInfinite then sign ++ Text.ofString l.infinite
    else if x.isZero then sign ++ Text.ofString "0.0"
    else
      let r := x.shortest
      let all := Nat.toDigits 10 r.1
      sign ++ Text.ofChars (l.digits (dropTrailingZeros all) (r.2 + all.length - 1))

end CodeCatalog.Double
