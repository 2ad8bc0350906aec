import CodeCatalog.Chunk.Merge
import CodeCatalog.Extraction.File
import CodeCatalog.Workspace.Discovery
set_option autoImplicit false

/-!
# Surveys

A survey finds the source files below a folder and puts their entities together.  A file
without a grammar is passed over, and a file with a fault of its own is skipped and
counted; neither disturbs the other files.  The entities of all files are merged at the end.
-/

namespace CodeCatalog

/-- What a survey found: the entities, the number of files, and how many of these were
skipped. -/
structure Survey where
  entities : List (Entity Text)
  found : Nat
  skipped : Nat

namespace Survey

/-- A survey of nothing. -/
def empty : Survey := ⟨[], 0, 0⟩

/-- Adds what became of one file. -/
def add (s : Survey) : Outcome (List (Entity Text)) → Outcome Survey
  | .ok es => .ok { s with entities := s.entities ++ es }
  | .error f => if f.isExtraction then .ok { s with skipped := s.skipped + 1 } else .error f

/-- Goes through the files of a survey in order. -/
def addFiles (w : Workspace) (parser : Parser) (bound : Value) (s : Survey)
    (files : List Path) : Outcome Survey :=
  files.foldlM (fun s path =>
    if (Grammar.ofPath? path).isSome then s.add (w.extract parser path bound) else .ok s) s

/-- Merges the entities of a survey, if there are any, as a level of granularity asks for; the
bound may be any value. -/
def merge (level : Granularity) (bound : Value) (s : Survey) : Except DataFault Survey :=
  if s.entities.isEmpty then .ok s
  else
    match bound.wholeBound? with
    | some bound => .ok { s with entities := mergeEntities level bound s.entities }
    | none => (mergeWithin level bound s.entities).map fun es => { s with entities := es }

end Survey

/-- What is looked for in a survey: the extensions of files, the names of folders that are
not entered, the bound on the size of snippets, and how much is merged. -/
structure SurveyRules where
  extensions : List Text
  excluded : List Text := usualExcluded
  bound : Value := .null
  granularity : Granularity := .fine

/-- Surveys a folder. -/
def Workspace.survey (w : Workspace) (parser : Parser) (root : Path) (rules : SurveyRules) :
    Outcome Survey := do
  let files ← w.findFiles root (normalExtensions rules.extensions) rules.excluded
  let s ← Survey.addFiles w parser rules.bound { Survey.empty with found := files.length } files
  Outcome.ofData (s.merge rules.granularity rules.bound)

/-- The level of granularity that a value names, as a result. -/
def Granularity.read (v : Value) : Outcome Granularity :=
  (Granularity.parse v).mapError .badGranularity

/-- The texts that the elements of a value are. -/
def Value.readTexts (v : Value) : Except DataFault (List Text) := do
  (← v.elements).mapM fun
    | .text t => .ok t
    | v => .error (.lacks v.typeName "strip")

/-- The names of folders that a value excludes: the usual ones for `null`.  Any element that can
be a key may stand among them, but only texts are names. -/
def Value.readExcluded : Value → Except DataFault (List Text)
  | .null => .ok usualExcluded
  | v => do
    let items ← v.elements
    let _ ← items.mapM Value.key
    return Value.textsAmong items

/-- The rules of a survey that values stand for; the first fault in the order of the level, the
extensions and the folders counts. -/
def SurveyRules.ofValues (extensions excluded bound granularity : Value) :
    Outcome SurveyRules := do
  let granularity ← Granularity.read granularity
  let extensions ← Outcome.ofData extensions.readTexts
  let excluded ← Outcome.ofData excluded.readExcluded
  return { extensions, excluded, bound, granularity }

end CodeCatalog
