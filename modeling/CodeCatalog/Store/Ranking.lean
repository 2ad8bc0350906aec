import CodeCatalog.Value
set_option autoImplicit false

/-!
# Ranking points

Points are ranked by a score against the vector of a query, the best first; of two points with
one score the one that was stored first comes first.

A score that is not a number is neither better nor worse than another one, so no order is right
among such scores.  Then the points that are in order from the start are kept, or turned round
if each of them is better than the one before, and the others are put in one by one, each by a
search that halves the points before it.
-/

namespace CodeCatalog

/-- A stored point. -/
structure Point where
  id : Text
  vector : List Double
  payload : Value

/-- The sum of the products of the components, over the shorter length. -/
def dotProduct (q v : List Double) : Double :=
  (List.zipWith Double.mul q v).foldl Double.add Double.zero

/-- The points with their scores. -/
def scored {S : Type} (score : List Double → S) (points : List Point) : List (S × Point) :=
  points.map fun p => (score p.vector, p)

/-- The points with their scores, the best first; `worse a b` says that `a` is not better
than `b`. -/
def rank {S : Type} (score : List Double → S) (worse : S → S → Bool) (points : List Point) :
    List (S × Point) :=
  (scored score points).mergeSort fun a b => worse b.1 a.1

namespace Ranking

variable {α : Type}

/-- The number of elements at the front of a list that are, each held against the one before,
as `x` and the first of them are. -/
def runLength (follows : α → α → Bool) (x : α) : List α → Nat
  | [] => 0
  | y :: rest => if follows x y then 1 + runLength follows y rest else 0

/-- The elements from the start that are in order, the best first, and the others. -/
def leadingRun (better : α → α → Bool) : List α → List α × List α
  | [] => ([], [])
  | [x] => ([x], [])
  | x :: y :: rest =>
    if better y x then
      let n := 1 + runLength (fun a b => better b a) x (y :: rest)
      (((x :: y :: rest).take n).reverse, (x :: y :: rest).drop n)
    else
      let n := 1 + runLength (fun a b => !better b a) x (y :: rest)
      ((x :: y :: rest).take n, (x :: y :: rest).drop n)

/-- The number of elements of a list that stay before `x`, which is searched for between two of
its positions. -/
def position (better : α → α → Bool) (x : α) (placed : List α) (low high : Nat) : Nat :=
  if _h : low < high then
    let middle := low + (high - low) / 2
    match placed[middle]? with
    | none => low
    | some y =>
      if better x y then position better x placed low middle
      else position better x placed (middle + 1) high
  else low
termination_by high - low
decreasing_by all_goals omega

/-- Puts an element where the search for it ends. -/
def place (better : α → α → Bool) (placed : List α) (x : α) : List α :=
  placed.insertIdx (position better x placed 0 placed.length) x

/-- Puts the elements behind the leading run into it, one by one. -/
def arrange (better : α → α → Bool) (xs : List α) : List α :=
  let run := leadingRun better xs
  run.2.foldl (place better) run.1

end Ranking

/-- The points with their scores against a vector, the best first. -/
def rankNearest (vector : List Double) (points : List Point) : List (Double × Point) :=
  let all := scored (dotProduct vector) points
  if all.any fun p => p.1.isNaN then Ranking.arrange (fun a b => b.1.lt a.1) all
  else rank (dotProduct vector) Double.le points

end CodeCatalog
