import CodeCatalog.Value
set_option autoImplicit false

/-!
# Bounds on sizes

A setting bounds the sizes of snippets.  It should be a whole number, but any value may stand
there, and what it means for sizes shows when a size is held against it.
-/

namespace CodeCatalog

/-- A bound on sizes. -/
inductive Bound where
  /-- Sizes up to a number. -/
  | upTo (n : Int)
  /-- All sizes. -/
  | unlimited
  /-- What is not a number: no size stays within it, and none exceeds it. -/
  | undecided
  deriving DecidableEq, Repr

namespace Bound

/-- The size stays within the bound. -/
def fits (size : Nat) : Bound → Bool
  | upTo n => (size : Int) ≤ n
  | unlimited => true
  | undecided => false

/-- The size exceeds the bound. -/
def isExceeded (size : Nat) : Bound → Bool
  | upTo n => n < (size : Int)
  | unlimited => false
  | undecided => false

/-- The bound that a floating-point number is. -/
def ofDouble (x : Double) : Bound :=
  if x.isNaN then .undecided
  else if x.isFinite then .upTo x.floor
  else if x.isNegative then .upTo (-1)
  else .unlimited

end Bound

namespace Value

/-- The bound that a value is for sizes that are held against it by a relation. -/
def bound (relation : String) (v : Value) : Except DataFault Bound :=
  match v with
  | .int n => .ok (.upTo n)
  | .bool b => .ok (.upTo (if b then 1 else 0))
  | .float x => .ok (.ofDouble x)
  | v => .error (.notComparable relation "int" v.typeName)

/-- Whether a size stays within the bound that a value is. -/
def fits (size : Nat) (v : Value) : Except DataFault Bool :=
  (v.bound "<=").map (Bound.fits size)

/-- Whether a size exceeds the bound that a value is; nothing exceeds `null`. -/
def isExceeded (size : Nat) (v : Value) : Except DataFault Bool :=
  match v with
  | .null => .ok false
  | v => (v.bound ">").map (Bound.isExceeded size)

/-- Half of a bound, rounded down; half of infinity is not a number. -/
def half (v : Value) : Except DataFault Value :=
  match v with
  | .null => .ok .null
  | .int n => .ok (.int (Int.fdiv n 2))
  | .bool _ => .ok (.int 0)
  | .float x =>
    .ok (if x.isFinite then .int (Int.fdiv x.floor 2) else .float (Double.nan false))
  | v => .error (.notDivisible v.typeName)

/-- The bound of a value that is a whole number or `null`; nothing for other values. -/
def wholeBound? : Value → Option (Option Int)
  | .null => some none
  | .int n => some (some n)
  | _ => none

/-- The length of a value: the number of code points, items or members. -/
def length (v : Value) : Except DataFault Nat :=
  match v with
  | .text t => .ok t.length
  | .list items => .ok items.length
  | .object members => .ok members.length
  | v => .error (.noLength v.typeName)

/-- The lines of a text. -/
def lines (v : Value) : Except DataFault (List Text) :=
  match v with
  | .text t => .ok t.lines
  | v => .error (.lacks v.typeName "split")

/-- The texts of values, which are at a position and behind it. -/
def textsFrom (position : Nat) : List Value → Except DataFault (List Text)
  | [] => .ok []
  | .text t :: rest => (textsFrom (position + 1) rest).map (t :: ·)
  | v :: _ => .error (.notJoinable position v.typeName)

/-- Texts put together as lines. -/
def joinLines (vs : List Value) : Except DataFault Text := (textsFrom 0 vs).map Text.joinLines

end Value

end CodeCatalog
