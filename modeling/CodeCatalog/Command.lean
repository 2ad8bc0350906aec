import CodeCatalog.Command.Help
import CodeCatalog.Indexing
import CodeCatalog.Retrieval
set_option autoImplicit false

/-!
# Commands

What the commands do, and how they report it.  A command prints its result and exits with
status 0; a fault of the catalog is reported on one line with status 1; arguments that do
not fit, or that make no valid request, give status 2.  Any other fault is passed on.
-/

namespace CodeCatalog

/-- What a command leaves behind: its exit status, what it printed, and its report on an
error. -/
structure Reply where
  status : Nat
  output : Text
  report : Text
  deriving DecidableEq, Repr

namespace Command

variable {σ : Type}

/-- The output of a command, or why its arguments make no valid request. -/
abbrev Result := Except (List Request.Violation) Text

/-- A line of a text. -/
def line (t : Text) : Text := t ++ [Glyph.newline]

/-- Prints a line. -/
def printLine (t : Text) : Work σ Text := Surroundings.print ⟨[t, "\n"], none⟩

/-- The path that a value spells. -/
def pathOf (v : Value) : Work σ Path := Action.ofOutcome (.ofData v.toPath)

/-- What is printed of records: their document and a line feed. -/
def listing (rs : List Record) : Value.Printed := (Record.document rs).print 0 ++ .piece "\n"

/-- Writes records to a file if one is named, and prints them otherwise. -/
def emit (rs : List Record) (output : Value) : Work σ Text := do
  if output.isPresent then
    Surroundings.writeIndex rs (← pathOf output)
    return []
  else Surroundings.print (listing rs)

/-- The settings for overrides. -/
def settings (overrides : List (Text × Value)) : Work σ Value :=
  Surroundings.ask fun s => .ok (Settings.load s.environment overrides)

/-- The file that a path leads to, or else the single file below a folder, if one is given, whose
path ends in it. -/
def resolve (path folder : Value) : Work σ Path := do
  let direct ← pathOf path
  if ← Surroundings.ask fun s => (s.files.exists? direct).mapError .file then return direct
  match folder with
  | .null => return direct
  | folder =>
    let root ← pathOf folder
    match ← Surroundings.ask fun s => s.files.findBySuffix root path.shown with
    | some p => return p
    | none => Action.fail (.noMatch path.shown folder.shown)

/-- The data of the request for a survey; what was not given comes from the settings. -/
def requestData (a : SurveyArguments) (settings : Value) :
    Except DataFault (List (Text × Value)) := do
  let extensions ←
    if a.extensions.isEmpty then settings.index "extensions"
    else pure (Settings.texts a.extensions)
  let excluded ← match a.excluded with
    | some ts => pure (Settings.texts ts)
    | none => settings.index "exclude_dirs"
  return [("root_dir", a.folder), ("extensions", extensions), ("exclude_dirs", excluded),
    ("max_snippet_size", a.bound), ("granularity", a.granularity)]

/-- The rules of the survey that a request asks for. -/
def rulesOf (r : SurveyRequest) : SurveyRules :=
  ⟨r.extensions, r.excluded, .ofInt? r.maxSnippet, r.granularity⟩

/-- Surveys a folder, and writes what it found to a file or prints it. -/
def surveyFolder (r : SurveyRequest) (output : Value) : Work σ Text := do
  let root := Path.parse r.root
  if output.isPresent then
    let count ← Surroundings.indexToFile root (rulesOf r) (← pathOf output)
    printLine ("Indexed " ++ Text.ofNat count ++ " entities into " ++ output.shown)
  else
    let survey ← Surroundings.ask fun s => s.files.survey s.parser root (rulesOf r)
    emit (survey.entities.map Entity.toRecord) .null

/-- The report on an indexing run. -/
def reportText (r : IndexingReport) : Text :=
  "Files: " ++ Text.ofNat r.found ++ " found, " ++ Text.ofNat r.skipped
    ++ " skipped. Entities: " ++ Text.ofNat r.entities ++ ", embedded " ++ Text.ofNat r.embedded
    ++ ", upserted " ++ Text.ofNat r.upserted ++ " into '" ++ r.collection.shown ++ "'"

/-- Runs an indexing request. -/
def build (r : BuildRequest) : Work σ Text := do
  let report ← Surroundings.index (← settings r.overrides)
    { collection := .text r.collection
      extensions := Settings.texts r.index.extensions
      excluded := Settings.texts r.index.excluded
      bound := .ofInt? r.index.maxSnippet
      granularity := .text r.index.granularity.label }
    (Path.parse r.index.root)
  printLine (reportText report)

/-- The overrides that what was given of the embedding service is. -/
def optionOverrides (o : Embedder.Given) : Value :=
  .object [("model", o.model), ("api_key", o.apiKey), ("api_base", o.baseUrl)]

/-- The overrides that an address of the vector server is. -/
def serverOverride (url : Value) : Text × Value :=
  ("vector_store", .object [("qdrant", .object [("url", url)])])

/-- Runs a query request. -/
def find (r : SearchRequest) (serverUrl output : Value) (options : Embedder.Given) :
    Work σ Text := do
  let cfg ← settings [("embedding", optionOverrides options), serverOverride serverUrl]
  let embedder ← Surroundings.setUpEmbedder cfg {}
  let store ← Surroundings.setUpStore cfg (some embedder)
  let found ← Surroundings.query store (.text r.collection) (.text r.text) (.int r.topK)
  emit found output

/-- Goes on with a request if it is valid. -/
def ifValid {α : Type} (request : Request.Checked α) (go : α → Work σ Text) : Work σ Result :=
  match request with
  | .ok r => .ok <$> go r
  | .error violations => return .error violations

/-- Runs a command. -/
def run : Command → Work σ Result
  | .parseFile path folder bound output => do
    let p ← resolve path folder
    let es ← Surroundings.ask fun s => s.files.extract s.parser p bound
    .ok <$> emit (es.map Entity.toRecord) output
  | .parseFolder survey output => do
    let data ← Action.ofOutcome (.ofData (requestData survey (← settings [])))
    ifValid (SurveyRequest.check data) fun r => surveyFolder r output
  | .embed input output options => do
    let cfg ← settings []
    let source ← pathOf input
    let target ← pathOf output
    let count ← Surroundings.fillIndexFile cfg options source target
    .ok <$> printLine
      (Text.ofNat count ++ " entities with embeddings written to " ++ output.shown)
  | .upsert input collection serverUrl => do
    let store ← Surroundings.setUpStore (← settings [serverOverride serverUrl]) none
    let count ← Surroundings.upsertFile store collection (← pathOf input)
    .ok <$> printLine
      ("Upserted " ++ Text.ofNat count ++ " points into '" ++ collection.shown ++ "'")
  | .query text collection topK serverUrl output options =>
    ifValid
      (SearchRequest.check [("collection", collection), ("text", text), ("top_k", topK)])
      fun r => find r serverUrl output options
  | .buildIndex survey collection serverUrl options => do
    let data ← Action.ofOutcome (.ofData (requestData survey (← settings [])))
    match SurveyRequest.check data with
    | .error violations => return .error violations
    | .ok index =>
      let again := { survey with
        extensions := index.extensions, granularity := .text index.granularity.label }
      let data ← Action.ofOutcome (.ofData (requestData again (← settings [])))
      let more : List (Text × Value) := [("collection", collection), ("qdrant_url", serverUrl),
        ("embedding", optionOverrides options)]
      ifValid (BuildRequest.check (data ++ more)) build

/-- The report on a refused request. -/
def violationReport (violations : List Request.Violation) : Text :=
  "Error: invalid arguments\n" ++ violations.flatMap fun v => line v.rule.message

/-- Runs a command line.  Faults that are not the catalog's own are passed on. -/
def main (args : List Text) : Work σ Reply := fun s =>
  match ofArguments args with
  | .error (.help form) =>
    ((fun t => ⟨0, t, []⟩) <$> Surroundings.print (.piece (Help.text form))) s
  | .error (.usage form) => (.ok ⟨2, [], Help.block (Help.usage form)⟩, s)
  | .ok command =>
    match command.run s with
    | (.ok (.ok output), s) => (.ok ⟨0, output, []⟩, s)
    | (.ok (.error violations), s) => (.ok ⟨2, [], violationReport violations⟩, s)
    | (.error f, s) =>
      if f.isReported then (.ok ⟨1, [], line ("Error: " ++ f.message)⟩, s) else (.error f, s)

end Command

end CodeCatalog
