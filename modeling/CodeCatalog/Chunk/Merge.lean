import CodeCatalog.Entity.Fragment
import CodeCatalog.Granularity
set_option autoImplicit false

/-!
# Merging entities

Adjacent entities of a file are gathered into groups, and each group is folded into one
entity.  A group is gathered greedily: it takes the next entity as long as the two may
stand in one group and the snippets, joined by line feeds, stay within the bound.  The
levels of granularity differ in what may stand together and in the bound.
-/

namespace CodeCatalog

namespace Entity

/-- The kind of a group: the common kind of its members, if they have one. -/
def groupKind (first : Entity Text) (rest : List (Entity Text)) : Text :=
  if rest.all fun e => e.kind == first.kind then first.kind else Kind.mergedChunk

/-- The entity into which a group is folded, given its kind and the joined signatures and
snippets. -/
def folded {τ : Type} [Fragment τ] (first : Entity τ) (rest : List (Entity τ)) (last : Entity τ)
    (kind signature snippet : τ) : Entity τ :=
  { name := Fragment.ofText ("Merged " ++ Fragment.shown kind ++ " [lines "
      ++ Text.ofInt first.lineFrom ++ "-" ++ Text.ofInt last.lineTo ++ "]")
    signature, kind
    docstring := ((first :: rest).filterMap Entity.docstring).find? fun d =>
      (Fragment.toValue d).isPresent
    line := first.line
    lineFrom := first.lineFrom
    lineTo := last.lineTo
    context :=
      ⟨first.context.filePath, first.context.fileName, snippet, first.context.moduleName, none⟩
    embedding := none }

/-- Folds a group of two or more consecutive entities into one. -/
def fold (first : Entity Text) (rest : List (Entity Text)) (last : Entity Text) : Entity Text :=
  first.folded rest last (groupKind first rest)
    (Text.joinLines ((first :: rest).map Entity.signature))
    (Text.joinLines ((first :: rest).map Entity.snippet))

/-- The entity of a group: a single member is kept as it is, and an empty group has none. -/
def merge? : List (Entity Text) → Option (Entity Text)
  | [] => none
  | [e] => some e
  | e :: rest => some (e.fold rest (rest.getLastD e))

end Entity

/-- How groups are gathered: which entities may stand in the group of a first one, and how
long the joined snippets may become. -/
structure Gathering where
  joins : Entity Text → Entity Text → Bool
  bound : Option Int

namespace Gathering

/-- The joined length stays within the bound. -/
def fits (g : Gathering) (size : Nat) : Bool :=
  match g.bound with
  | none => true
  | some bound => (size : Int) ≤ bound

/-- Gathers groups.  The open group consists of `first` and `more`, and its joined snippets
have length `size`. -/
def groupsFrom (g : Gathering) (first : Entity Text) (more : List (Entity Text)) (size : Nat) :
    List (Entity Text) → List (List (Entity Text))
  | [] => [first :: more]
  | e :: rest =>
    let joined := size + e.snippet.length + 1
    if g.joins first e && g.fits joined then g.groupsFrom first (more ++ [e]) joined rest
    else (first :: more) :: g.groupsFrom e [] e.snippet.length rest

/-- The groups of a list of consecutive entities. -/
def groups (g : Gathering) : List (Entity Text) → List (List (Entity Text))
  | [] => []
  | e :: rest => g.groupsFrom e [] e.snippet.length rest

/-- Two entities of one kind that fine-grained merging folds together. -/
def sameFineKind (first e : Entity Text) : Bool := Kind.isFine first.kind && e.kind == first.kind

/-- Joins runs of imports, of constants and of variables. -/
def fine (bound : Option Int) : Gathering := ⟨sameFineKind, bound⟩

/-- Joins whatever is adjacent. -/
def any (bound : Option Int) : Gathering := ⟨fun _ _ => true, bound⟩

/-- The gathering of a level: the medium one fills half of the bound. -/
def ofLevel (level : Granularity) (bound : Option Int) : Gathering :=
  match level with
  | .fine => fine bound
  | .medium => any (bound.map fun b => Int.fdiv b 2)
  | .coarse => any bound

end Gathering

/-- The entities of each file, in the order in which the files come first; within a file
they are ordered by their first line, and ties keep their order. -/
def perFile (es : List (Entity Text)) : List (List (Entity Text)) :=
  (Text.distinct (es.map Entity.filePath)).map fun path =>
    (es.filter fun e => e.filePath == path).mergeSort fun a b => decide (a.lineFrom ≤ b.lineFrom)

/-- Merges the entities of each file. -/
def Gathering.mergeAll (g : Gathering) (es : List (Entity Text)) : List (Entity Text) :=
  (perFile es).flatMap fun file => (g.groups file).filterMap Entity.merge?

/-- Merges the entities of each file as a level of granularity asks for. -/
def mergeEntities (level : Granularity) (bound : Option Int) (es : List (Entity Text)) :
    List (Entity Text) :=
  (Gathering.ofLevel level bound).mergeAll es

end CodeCatalog
