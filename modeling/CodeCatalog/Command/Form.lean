import CodeCatalog.Command.Arguments
import CodeCatalog.Embedding.Embedder
import CodeCatalog.Granularity
import CodeCatalog.Request
set_option autoImplicit false

/-!
# Forms of commands

What each command may be given on the command line, and the commands that result.  A command
has a form, which names its operands and options; options that are given more than once
count the last time.  An option or operand that was given without a value stands for an empty
list.
-/

namespace CodeCatalog

/-- What can be given to a command. -/
inductive Field where
  | help
  | verbose
  | path
  | folder
  | input
  | output
  | text
  | extensions
  | excluded
  | bound
  | granularity
  | collection
  | serverUrl
  | topK
  | model
  | apiKey
  | apiBase
  deriving DecidableEq, Repr

/-- The forms of commands. -/
inductive Form where
  | parseFile
  | parseFolder
  | embed
  | upsert
  | query
  | buildIndex
  deriving DecidableEq, Repr

namespace Form

/-- All forms. -/
def all : List Form := [parseFile, parseFolder, embed, upsert, query, buildIndex]

/-- The word that names a form on the command line. -/
def word : Form → Text
  | parseFile => "parse-file"
  | parseFolder => "parse-dir"
  | embed => "embed"
  | upsert => "upsert"
  | query => "query"
  | buildIndex => "build-index"

/-- The form that a word names. -/
def ofWord? (t : Text) : Option Form := all.find? fun f => f.word == t

/-! ## Options -/

/-- Asks for help. -/
def helpRule : OptionRule Field := ⟨["-h", "--help"], .none, .help⟩

/-- Asks for more messages, of which there are none. -/
def verboseRule : OptionRule Field := ⟨["-v", "--verbose"], .none, .verbose⟩

/-- The folder below which a partial path is looked for. -/
def folderRule : OptionRule Field := ⟨["--root"], .one, .folder⟩

/-- The bound on the size of snippets. -/
def boundRule : OptionRule Field := ⟨["--max-snippet-size"], .one, .bound⟩

/-- The file to write to. -/
def outputRule : OptionRule Field := ⟨["-o", "--output"], .one, .output⟩

/-- The collection to work on. -/
def collectionRule : OptionRule Field := ⟨["--collection"], .one, .collection⟩

/-- The address of the vector server. -/
def serverUrlRule : OptionRule Field := ⟨["--qdrant-url"], .one, .serverUrl⟩

/-- The number of results. -/
def topKRule : OptionRule Field := ⟨["--top-k"], .one, .topK⟩

/-- The options of the commands that survey a folder. -/
def surveyRules : List (OptionRule Field) :=
  [⟨["-e", "--extensions"], .some, .extensions⟩, ⟨["--exclude-dirs"], .any, .excluded⟩, boundRule,
    ⟨["--granularity"], .one, .granularity⟩]

/-- The options of the commands that use the embedding service. -/
def embeddingRules : List (OptionRule Field) :=
  [⟨["--model"], .one, .model⟩, ⟨["--api-key"], .one, .apiKey⟩, ⟨["--api-base"], .one, .apiBase⟩]

/-- The options before the word of a form. -/
def commonRules : List (OptionRule Field) := [helpRule, verboseRule]

/-- The options of a form. -/
def rules : Form → List (OptionRule Field)
  | parseFile => [helpRule, folderRule, boundRule, outputRule]
  | parseFolder => helpRule :: surveyRules ++ [outputRule]
  | embed => helpRule :: embeddingRules
  | upsert => [helpRule, collectionRule, serverUrlRule]
  | query => [helpRule, collectionRule, topKRule, serverUrlRule, outputRule] ++ embeddingRules
  | buildIndex => helpRule :: surveyRules ++ [collectionRule, serverUrlRule] ++ embeddingRules

/-- The operands of a form in order. -/
def operands : Form → List Field
  | parseFile => [.path]
  | parseFolder => [.folder]
  | embed => [.input, .output]
  | upsert => [.input]
  | query => [.text]
  | buildIndex => [.folder]

end Form

/-! ## Commands -/

/-- What a command that surveys a folder is given. -/
structure SurveyArguments where
  folder : Value
  extensions : List Text
  excluded : Option (List Text)
  bound : Value
  granularity : Value

/-- The commands.  What was not given is `null`. -/
inductive Command where
  | parseFile (path folder bound output : Value)
  | parseFolder (survey : SurveyArguments) (output : Value)
  | embed (input output : Value) (options : Embedder.Given)
  | upsert (input collection serverUrl : Value)
  | query (text collection topK serverUrl output : Value) (options : Embedder.Given)
  | buildIndex (survey : SurveyArguments) (collection serverUrl : Value)
      (options : Embedder.Given)

/-- Why there is no command: help was asked for, or the arguments do not fit. -/
inductive Refusal where
  | help (form : Option Form)
  | usage (form : Option Form)
  deriving DecidableEq, Repr

namespace Command

/-- The values of fields in the order in which they were given. -/
abbrev Given := List (Field × List Text)

/-- An integer on the command line. -/
def integer? (t : Text) : Option Int :=
  match t.readInteger with
  | .value i => some i
  | _ => none

/-- The levels of granularity by the words that name them. -/
def levels : List Text :=
  [Granularity.fine.label, Granularity.medium.label, Granularity.coarse.label]

/-- The values of a field are of the right form. -/
def accepts (field : Field) (values : List Text) : Bool :=
  match field with
  | .bound => values.all fun t => (integer? t).isSome
  | .topK => values.all fun t => (integer? t).isSome
  | .granularity => values.all levels.contains
  | _ => true

/-- Goes through what was dealt up to the first call for help or fault.  Arguments that are
left over are a fault at the end. -/
def gather (form : Option Form) : List (Dealt Field) → Except Refusal (Given × Bool)
  | [] => .ok ([], false)
  | .fault :: _ => .error (.usage form)
  | .leftOver :: rest => (gather form rest).map fun r => (r.1, true)
  | .values field values :: rest =>
    if field = .help then .error (.help form)
    else if accepts field values then
      (gather form rest).map fun r => ((field, values) :: r.1, r.2)
    else .error (.usage form)

namespace Given

/-- The values of a field the last time it was given. -/
def values? (g : Given) (field : Field) : Option (List Text) :=
  (g.reverse.find? fun m => m.1 == field).map Prod.snd

/-- The value of a field that takes one: nothing if it was not given, and an empty list if it was
given without one. -/
def value? (g : Given) (field : Field) : Option Value :=
  (g.values? field).map fun
    | [] => .list []
    | t :: _ => .text t

/-- The value of an option; `null` if it was not given. -/
def option (g : Given) (field : Field) : Value := .ofOption (g.value? field)

/-- The integer of an option, or a default if it was not given. -/
def integer (g : Given) (field : Field) (standard : Value) : Value :=
  match g.value? field with
  | none => standard
  | some (.text t) => .ofInt? (integer? t)
  | some v => v

/-- What was given of the embedding service. -/
def embedding (g : Given) : Embedder.Given :=
  ⟨g.option .model, g.option .apiKey, g.option .apiBase⟩

/-- What was given for a survey. -/
def survey? (g : Given) : Option SurveyArguments := do
  return {
    folder := ← g.value? .folder
    extensions := (g.values? .extensions).getD []
    excluded := g.values? .excluded
    bound := g.integer .bound .null
    granularity := (g.value? .granularity).getD (.text Granularity.fine.label) }

/-- The command of a form; none if a field is missing that has no default. -/
def command? (g : Given) : Form → Option Command
  | .parseFile => do
    return .parseFile (← g.value? .path) (g.option .folder) (g.integer .bound .null)
      (g.option .output)
  | .parseFolder => do return .parseFolder (← g.survey?) (g.option .output)
  | .embed => do return .embed (← g.value? .input) (← g.value? .output) g.embedding
  | .upsert => do
    return .upsert (← g.value? .input) (← g.value? .collection) (g.option .serverUrl)
  | .query => do
    return .query (← g.value? .text) (← g.value? .collection) (g.integer .topK (.int 10))
      (g.option .serverUrl) (g.option .output) g.embedding
  | .buildIndex => do
    return .buildIndex (← g.survey?) (← g.value? .collection) (g.option .serverUrl) g.embedding

end Given

/-- The command of a form for the arguments behind its word, and whether some were left over. -/
def ofForm (form : Form) (args : List Text) : Except Refusal (Command × Bool) :=
  match Argument.classify form.rules args with
  | none => .error (.usage form)
  | some args => do
    let (given, leftOver) ← gather form (Argument.deal form.rules form.operands args)
    match given.command? form with
    | some command => return (command, leftOver)
    | none => throw (.usage form)

/-- The command of a command line: options, the word of a form, and the arguments of the
form. -/
def ofArguments (args : List Text) : Except Refusal Command :=
  match Argument.classify Form.commonRules args with
  | none => .error (.usage none)
  | some classified => do
    let (_, before) ←
      gather none (Argument.deal Form.commonRules [] (classified.takeWhile (!·.isOperand)))
    match classified.dropWhile (!·.isOperand) with
    | [] => throw (.usage none)
    | word :: rest =>
      match if word.isPlain then Form.ofWord? word.text else none with
      | none => throw (.usage none)
      | some form =>
        let (command, behind) ← ofForm form (rest.map Argument.text)
        if before || behind then throw (.usage form) else return command

end Command

end CodeCatalog
