import CodeCatalog.Embedding.Fill
import CodeCatalog.Survey
set_option autoImplicit false

/-!
# Indexing

The way from a folder of source files to an index file, and to a collection of a vector
store: survey, embed, store.  An indexing run that finds no entities asks for no embedder,
and one that ends without an embedding asks for no store.
-/

namespace CodeCatalog

/-- The counts of an indexing run. -/
structure IndexingReport where
  collection : Value
  found : Nat
  skipped : Nat
  entities : Nat := 0
  embedded : Nat := 0
  unembedded : Nat := 0
  upserted : Nat := 0

/-- The report on a run that has got no further than its survey. -/
def IndexingReport.ofSurvey (collection : Value) (s : Survey) : IndexingReport :=
  { collection, found := s.found, skipped := s.skipped, entities := s.entities.length }

/-- What is given to an indexing run; what is `null` comes from the settings. -/
structure IndexingOptions where
  collection : Value := .null
  extensions : Value := .null
  excluded : Value := .null
  bound : Value := .null
  granularity : Value := .null
  embedder : Option Embedder := none
  store : Option VectorStore := none

namespace IndexingOptions

/-- The collection of an indexing run: the given one, the one of the settings, or one named
for the folder; an empty name counts as none. -/
def collectionFor (o : IndexingOptions) (settings : Value) (w : Workspace) (root : Path) :
    Outcome Value := do
  if o.collection.isPresent then return o.collection
  let v ← Outcome.ofData do (← Settings.part settings "vector_store").member "collection"
  if v.isPresent then return v else return .text (← w.collectionName root)

/-- A given value, or else the value of a setting. -/
def orSetting (given settings : Value) (name : Text) : Except DataFault Value :=
  match given with
  | .null => settings.member name
  | v => .ok v

/-- The rules of the survey of an indexing run. -/
def rules (o : IndexingOptions) (settings : Value) : Outcome SurveyRules := do
  let extensions ← Outcome.ofData do
    match o.extensions with
    | .null => return (← settings.member? "extensions").getD (.list [])
    | v => return v
  let excluded ← Outcome.ofData (orSetting o.excluded settings "exclude_dirs")
  let bound ← Outcome.ofData (orSetting o.bound settings "max_snippet_size")
  let granularity ← Outcome.ofData (orSetting o.granularity settings "granularity")
  SurveyRules.ofValues extensions excluded bound granularity

end IndexingOptions

namespace Surroundings

variable {σ : Type}

/-- The embedder of an indexing run: the given one, or else that of the settings. -/
def embedderFor (settings : Value) (o : IndexingOptions) : Work σ Embedder :=
  match o.embedder with
  | some e => pure e
  | none => setUpEmbedder settings {}

/-- The store of an indexing run: the given one, or else that of the settings. -/
def storeFor (settings : Value) (o : IndexingOptions) (embedder : Embedder) :
    Work σ VectorStore :=
  match o.store with
  | some store => pure store
  | none => setUpStore settings (some embedder)

/-- Stores records in a collection, which is made if it is missing; tells how many were stored. -/
def storeRecords (store : VectorStore) (collection : Value) (rs : List Record) : Work σ Nat := do
  let _ ← onServer (store.create collection)
  onServer (store.upsert collection rs)

/-- Surveys a folder, embeds what is found, and stores it in a collection. -/
def index (settings : Value) (o : IndexingOptions) (root : Path) : Work σ IndexingReport := do
  let collection ← ask fun s => o.collectionFor settings s.files root
  let survey ← ask fun s => do s.files.survey s.parser root (← o.rules settings)
  let report := IndexingReport.ofSurvey collection survey
  if survey.entities.isEmpty then return report
  let embedder ← embedderFor settings o
  let rs ← fillRecords settings { embedder := some embedder }
    (survey.entities.map Entity.toRecord)
  let report : IndexingReport := { report with
    embedded := rs.countP fun r => r.embedding.isSome
    unembedded := rs.countP Record.isPending }
  if report.embedded = 0 then return report
  let store ← storeFor settings o embedder
  return { report with upserted := ← storeRecords store collection rs }

/-- Surveys a folder and writes its entities to an index file, unless there are none; tells
how many there are. -/
def indexToFile (root : Path) (rules : SurveyRules) (output : Path) : Work σ Nat := do
  let survey ← ask fun s => s.files.survey s.parser root rules
  if survey.entities.isEmpty then return 0
  writeIndex (survey.entities.map Entity.toRecord) output
  return survey.entities.length

/-- Stores the records of an index file in a collection, which is made if it is missing;
tells how many were stored.  An empty index asks nothing of the server. -/
def upsertFile (store : VectorStore) (collection : Value) (input : Path) : Work σ Nat := do
  let rs ← ask fun s => IndexFile.read s.files input
  if rs.isEmpty then return 0
  storeRecords store collection rs

end Surroundings

end CodeCatalog
