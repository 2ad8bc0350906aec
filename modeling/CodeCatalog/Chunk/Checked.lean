import CodeCatalog.Chunk.Merge
import CodeCatalog.Chunk.Split
import CodeCatalog.Value.Bound
import CodeCatalog.Value.Key
set_option autoImplicit false

/-!
# Chunks of loaded entities

Splits and merges entities where any value may stand for a text, and under a bound that may be
any value.  The rules are those for texts and whole numbers.  A value that does not allow a step
is a fault, and the first fault in the order of the steps counts: a step that is not taken does
not look at a value.
-/

namespace CodeCatalog

namespace Bound

/-- The runs of lines that chunks within a bound hold. -/
def pack (lines : List Text) : Bound → List (List Text)
  | .upTo n => packLines n lines
  | _ => [lines]

end Bound

namespace Entity

variable {τ : Type} [Fragment τ]

/-- The length of an entity's snippet. -/
def snippetLength (e : Entity τ) : Except DataFault Nat := (Fragment.toValue e.snippet).length

/-- Splits an entity whose snippet exceeds the bound, unless there is no bound. -/
def splitWithin (bound : Value) (e : Entity τ) : Except DataFault (List (Entity τ)) :=
  if !bound.isPresent then .ok [e]
  else do
    let size ← e.snippetLength
    let limit ← bound.bound "<="
    if limit.fits size then return [e]
    else return e.chunks (limit.pack (← (Fragment.toValue e.snippet).lines))

/-- Splits each of a list of entities. -/
def splitAll (bound : Value) (es : List (Entity τ)) : Except DataFault (List (Entity τ)) :=
  (es.mapM (splitWithin bound)).map List.flatten

/-- The kind of a group: that of its first member, if they are all of one. -/
def checkedKind (first : Entity τ) (rest : List (Entity τ)) : Except DataFault τ := do
  let kind ← (Fragment.toValue first.kind).key
  let kinds ← rest.mapM fun e => (Fragment.toValue e.kind).key
  return if kinds.all (· == kind) then first.kind else Fragment.ofText Kind.mergedChunk

/-- The entity of a group: a single member is kept as it is, and others are folded into one. -/
def mergeGroup (first : Entity τ) (rest : List (Entity τ)) : Except DataFault (Entity τ) :=
  match rest with
  | [] => .ok first
  | _ => do
    let group := first :: rest
    let kind ← first.checkedKind rest
    let signature ← Value.joinLines (group.map fun e => Fragment.toValue e.signature)
    let snippet ← Value.joinLines (group.map fun e => Fragment.toValue e.snippet)
    return first.folded rest (rest.getLastD first) kind (Fragment.ofText signature)
      (Fragment.ofText snippet)

end Entity

/-- A group that is being gathered, and the length of its joined snippets. -/
structure OpenGroup (τ : Type) where
  first : Entity τ
  more : List (Entity τ) := []
  size : Nat := 0

/-- How groups are gathered: whether an entity may be the first of several, whether another one
may stand in its group, and how long the joined snippets may become. -/
structure CheckedGathering (τ : Type) where
  opens : Entity τ → Except DataFault Bool
  joins : Entity τ → Entity τ → Bool
  bound : Value

namespace CheckedGathering

variable {τ : Type} [Fragment τ]

/-- The kinds that fine-grained merging folds together. -/
def fineKinds : List Text := [Kind.importItem, Kind.constant, Kind.variableBinding]

/-- Joins runs of imports, of constants and of variables. -/
def fine (bound : Value) : CheckedGathering τ where
  opens e := (Fragment.toValue e.kind).key.map fun _ =>
    fineKinds.any fun k => Fragment.isText k e.kind
  joins first e := fineKinds.any fun k => Fragment.isText k first.kind && Fragment.isText k e.kind
  bound := bound

/-- Joins whatever is adjacent. -/
def any (bound : Value) : CheckedGathering τ := ⟨fun _ => .ok true, fun _ _ => true, bound⟩

/-- The gathering of a level: the medium one fills half of the bound. -/
def ofLevel (level : Granularity) (bound : Value) : Except DataFault (CheckedGathering τ) :=
  match level with
  | .fine => .ok (fine bound)
  | .medium => any <$> bound.half
  | .coarse => .ok (any bound)

/-- The group that an entity opens. -/
def openAt (g : CheckedGathering τ) (e : Entity τ) : Except DataFault (OpenGroup τ) := do
  if ← g.opens e then return { first := e, size := ← e.snippetLength }
  else return { first := e }

/-- The group with one more entity, if it may be taken. -/
def extend? (g : CheckedGathering τ) (group : OpenGroup τ) (e : Entity τ) :
    Except DataFault (Option (OpenGroup τ)) := do
  if !g.joins group.first e then return none
  let size := group.size + (← e.snippetLength) + 1
  if ← g.bound.isExceeded size then return none
  return some { group with more := group.more ++ [e], size }

/-- Gathers the entities behind an open group, and merges each group as it is closed. -/
def mergeFrom (g : CheckedGathering τ) (group : OpenGroup τ) :
    List (Entity τ) → Except DataFault (List (Entity τ))
  | [] => do return [← group.first.mergeGroup group.more]
  | e :: rest => do
    match ← g.extend? group e with
    | some wider => mergeFrom g wider rest
    | none =>
      let merged ← group.first.mergeGroup group.more
      return merged :: (← mergeFrom g (← g.openAt e) rest)

/-- Merges the entities of one file. -/
def mergeFile (g : CheckedGathering τ) : List (Entity τ) → Except DataFault (List (Entity τ))
  | [] => .ok []
  | e :: rest => do mergeFrom g (← g.openAt e) rest

/-- The entities of each file, in the order in which the files come first; within a file they
are ordered by their first line, and ties keep their order. -/
def perFile (es : List (Entity τ)) : Except DataFault (List (List (Entity τ))) := do
  let keyed ← es.mapM fun e => (Fragment.toValue e.filePath).key.map fun k => (k, e)
  return (keyed.map Prod.fst).eraseDups.map fun k =>
    ((keyed.filter fun p => p.1 == k).map Prod.snd).mergeSort fun a b =>
      decide (a.lineFrom ≤ b.lineFrom)

/-- Merges the entities of each file; a single entity is left alone. -/
def mergeAll (g : CheckedGathering τ) (es : List (Entity τ)) :
    Except DataFault (List (Entity τ)) :=
  match es with
  | [] => .ok []
  | [e] => .ok [e]
  | es => do return (← (← perFile es).mapM g.mergeFile).flatten

end CheckedGathering

/-- Merges the entities of each file as a level of granularity asks for. -/
def mergeWithin {τ : Type} [Fragment τ] (level : Granularity) (bound : Value)
    (es : List (Entity τ)) : Except DataFault (List (Entity τ)) := do
  (← CheckedGathering.ofLevel level bound).mergeAll es

end CodeCatalog
