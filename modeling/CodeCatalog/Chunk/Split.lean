import CodeCatalog.Entity.Fragment
set_option autoImplicit false

/-!
# Splitting an entity

An entity whose snippet is too long is cut into chunks of whole lines.  Lines are packed
greedily: a chunk takes the next line as long as its lines, each counted with one line
feed, stay within the bound.  A chunk holds at least one line, so a single line may
exceed the bound.
-/

namespace CodeCatalog

/-- Packs lines into runs.  `run` is the run that is open, and `size` is the length of its
lines, each counted with one line feed. -/
def packFrom (bound : Int) (run : List Text) (size : Nat) : List Text → List (List Text)
  | [] => [run]
  | l :: rest =>
    if bound < (size + (l.length + 1) : Nat) then
      run :: packFrom bound [l] (l.length + 1) rest
    else packFrom bound (run ++ [l]) (size + (l.length + 1)) rest

/-- The runs of lines that the chunks of a text hold. -/
def packLines (bound : Int) : List Text → List (List Text)
  | [] => []
  | l :: rest => packFrom bound [l] (l.length + 1) rest

/-- A run of lines and the number of lines before it. -/
structure PlacedRun where
  start : Nat
  lines : List Text
  deriving DecidableEq, Repr

/-- Places runs that follow `start` lines. -/
def placeRuns (start : Nat) : List (List Text) → List PlacedRun
  | [] => []
  | run :: rest => ⟨start, run⟩ :: placeRuns (start + run.length) rest

namespace Entity

variable {τ : Type} [Fragment τ]

/-- The chunk of an entity that holds a run of its lines, the `number`th of `total`.  Its
lines count from the first line of the entity and do not pass the last. -/
def chunk (e : Entity τ) (total number : Nat) (run : PlacedRun) : Entity τ :=
  let lineFrom := min e.lineTo (e.lineFrom + run.start)
  let lineTo := min e.lineTo (e.lineFrom + (run.start + run.lines.length - 1 : Nat))
  let position := Text.ofNat number ++ "/" ++ Text.ofNat total
  { e with
    name := Fragment.ofText (Fragment.shown e.name ++ " [chunk " ++ position ++ "]")
    signature := Fragment.ofText ("Chunk " ++ position ++ " of original " ++ Fragment.shown e.kind)
    line := max lineFrom (min e.line lineTo)
    lineFrom := lineFrom
    lineTo := lineTo
    context := { e.context with snippet := Fragment.ofText (Text.joinLines run.lines) }
    embedding := none }

/-- The chunks of an entity for the runs of its lines; `number` chunks come before. -/
def chunksFrom (e : Entity τ) (total number : Nat) : List PlacedRun → List (Entity τ)
  | [] => []
  | run :: rest => e.chunk total (number + 1) run :: chunksFrom e total (number + 1) rest

/-- The chunks of an entity for the runs that its lines are cut into. -/
def chunks (e : Entity τ) (runs : List (List Text)) : List (Entity τ) :=
  e.chunksFrom runs.length 0 (placeRuns 0 runs)

/-- The entity fits without being cut: there is no bound, or the bound is zero, or the
snippet is no longer than it. -/
def fits (e : Entity Text) : Option Int → Bool
  | none => true
  | some bound => bound == 0 || e.snippet.length ≤ bound

/-- Splits an entity whose snippet exceeds the bound into chunks of whole lines. -/
def split (bound? : Option Int) (e : Entity Text) : List (Entity Text) :=
  match bound? with
  | none => [e]
  | some bound =>
    if e.fits bound then [e]
    else e.chunks (packLines bound e.snippet.lines)

end Entity

end CodeCatalog
