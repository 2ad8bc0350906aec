import CodeCatalog.Config
import CodeCatalog.Granularity
import CodeCatalog.Text.Case
set_option autoImplicit false

/-!
# Requests

The parameters of indexing and querying, checked.  All fields are checked before a request
is refused, so a refusal lists every violation in the order of the fields; the fields of
the index request come first where a request extends it.
-/

namespace CodeCatalog

/-- An extension in small letters, without the dots before it and the white space around it. -/
def normalExtension (extension : Text) : Text :=
  Text.lower (extension.trim.dropWhile (· == .scalar '.'))

/-- Normalised extensions, each once; empty ones are dropped. -/
def normalExtensions (extensions : List Text) : List Text :=
  Text.distinct ((extensions.map normalExtension).filter fun e => !e.isEmpty)

namespace Request

/-- A step to the place of a violation. -/
inductive Step where
  | field (name : String)
  | item (index : Nat)
  deriving DecidableEq, Repr

/-- What a field violates. -/
inductive Rule where
  | missing
  | textType
  | textUnicode
  | textTooShort
  | listType
  | listTooShort
  | integerType
  | integerText
  | integerSize
  | integerFraction
  | integerFinite
  | positive
  | atLeastOne
  | optionsType
  | value (report : Text)
  deriving DecidableEq, Repr

/-- The name of a rule. -/
def Rule.name : Rule → String
  | .missing => "missing"
  | .textType => "string_type"
  | .textUnicode => "string_unicode"
  | .textTooShort => "string_too_short"
  | .listType => "list_type"
  | .listTooShort => "too_short"
  | .integerType => "int_type"
  | .integerText => "int_parsing"
  | .integerSize => "int_parsing_size"
  | .integerFraction => "int_from_float"
  | .integerFinite => "finite_number"
  | .positive => "greater_than"
  | .atLeastOne => "greater_than_equal"
  | .optionsType => "model_type"
  | .value _ => "value_error"

/-- The report on a violated rule. -/
def Rule.message : Rule → Text
  | .missing => "Field required"
  | .textType => "Input should be a valid string"
  | .textUnicode =>
    "Input should be a valid string, unable to parse raw data as a unicode string"
  | .textTooShort => "String should have at least 1 character"
  | .listType => "Input should be a valid list"
  | .listTooShort => "List should have at least 1 item after validation, not 0"
  | .integerType => "Input should be a valid integer"
  | .integerText => "Input should be a valid integer, unable to parse string as an integer"
  | .integerSize => "Unable to parse input string as an integer, exceeded maximum size"
  | .integerFraction => "Input should be a valid integer, got a number with a fractional part"
  | .integerFinite => "Input should be a finite number"
  | .positive => "Input should be greater than 0"
  | .atLeastOne => "Input should be greater than or equal to 1"
  | .optionsType => "Input should be a valid dictionary or instance of EmbeddingOptions"
  | .value report => "Value error, " ++ report

/-- A violated rule and its place. -/
structure Violation where
  place : List Step
  rule : Rule
  deriving DecidableEq, Repr

/-- A checked field: its value, or what it violates. -/
abbrev Checked (α : Type) := Except (List Violation) α

/-- The violations of a field. -/
def violations {α : Type} : Checked α → List Violation
  | .ok _ => []
  | .error vs => vs

/-- Refuses a field. -/
def refuse {α : Type} (place : List Step) (rule : Rule) : Checked α := .error [⟨place, rule⟩]

/-! ## Fields -/

/-- A text. -/
def text (place : List Step) : Value → Checked Text
  | .text t => .ok t
  | _ => refuse place .textType

/-- A text whose length is asked for: it has no lone surrogates, and it is not empty. -/
def someText (place : List Step) (v : Value) : Checked Text := do
  let t ← text place v
  if !t.isScalar then refuse place .textUnicode
  else if t.isEmpty then refuse place .textTooShort
  else return t

/-- The items of a list of texts from an index on; every item is checked. -/
def textItems (place : List Step) (index : Nat) : List Value → Checked (List Text)
  | [] => .ok []
  | v :: rest =>
    match text (place ++ [.item index]) v, textItems place (index + 1) rest with
    | .ok t, .ok ts => .ok (t :: ts)
    | r, rs => .error (violations r ++ violations rs)

/-- A list of texts. -/
def textList (place : List Step) : Value → Checked (List Text)
  | .list items => textItems place 0 items
  | _ => refuse place .listType

/-- What a zero in front and what follows it leave: further zeros and underscores are dropped
up to a digit or a minus sign, a point keeps the code point before it, and the last of nothing
but zeros and underscores stays. -/
def afterZero (previous : Glyph) : Text → Option Text
  | [] => some [previous]
  | g :: rest =>
    if g = .scalar '0' || g = .scalar '_' then afterZero g rest
    else if g.asciiDigit?.isSome || g = .scalar '-' then some (g :: rest)
    else if g = .scalar '.' then some (previous :: g :: rest)
    else none

/-- A text that starts with a digit or a minus sign, without zeros in front. -/
def dropZeros : Text → Option Text
  | [] => none
  | g :: rest =>
    if g = .scalar '0' then afterZero g rest
    else if g.asciiDigit?.isSome || g = .scalar '-' then some (g :: rest)
    else none

/-- A text without a fraction of zeros, of which there has to be one, at its end. -/
def dropFraction (t : Text) : Text :=
  match t.dropWhile (· != .scalar '.') with
  | _ :: zeros =>
    if !zeros.isEmpty && zeros.all (· == .scalar '0') then t.takeWhile (· != .scalar '.') else t
  | [] => t

/-- A text without its underscores, each of which has to stand between two code points of
another kind. -/
def dropUnderscores (t : Text) : Option Text :=
  let parts := t.splitOn (.scalar '_')
  if 1 < parts.length && parts.any List.isEmpty then none else some parts.flatten

/-- The numeral in a text as it is read at last: without white space around it, the plus sign,
zeros in front, a fraction of zeros, and underscores. -/
def numeralOf? (t : Text) : Option Text := do
  let trimmed := t.trimWhile Text.numeralBlank
  let unsigned ← match trimmed with
    | .scalar '+' :: .scalar '-' :: _ => none
    | .scalar '+' :: rest => dropZeros rest
    | .scalar '-' :: rest => (dropZeros rest).map (.scalar '-' :: ·)
    | t => dropZeros t
  dropUnderscores (dropFraction unsigned)

/-- Reads the integer that a text holds: a minus sign and digits.  Too long a numeral is told of
even if something else follows it. -/
def integerOf (t : Text) : Text.IntegerReading :=
  match numeralOf? t with
  | none => .malformed
  | some numeral =>
    let negative := numeral.head? == some (.scalar '-')
    let body := if negative then numeral.drop 1 else numeral
    match Text.takeDigits body with
    | ([], _) => .malformed
    | (0 :: _ :: _, _) => .malformed
    | (ds, rest) =>
      let size := numeral.length - rest.length
      if Text.maxIntegerDigits < size then .tooLong size
      else if rest.isEmpty then
        .value (if negative then -(Text.digitsValue ds) else Text.digitsValue ds)
      else .malformed

/-- The floating-point numbers that stand for integers are nearer to zero than this. -/
def integerRange : Nat := twoTo 63

/-- An integer: a number without a fractional part, a truth value, or a text that holds
one. -/
def integer (place : List Step) : Value → Checked Int
  | .int i => .ok i
  | .bool b => .ok (if b then 1 else 0)
  | .float x =>
    if !x.isFinite then refuse place .integerFinite
    else if !x.isIntegral then refuse place .integerFraction
    else if x.truncate.natAbs < integerRange then .ok x.truncate
    else refuse place .integerSize
  | .text t =>
    if !t.isScalar then refuse place .textUnicode
    else
      match integerOf t with
      | .value i => .ok i
      | .malformed => refuse place .integerText
      | .tooLong _ => refuse place .integerSize
  | _ => refuse place .integerType

/-- An integer that is not below a bound. -/
def integerFrom (least : Int) (rule : Rule) (place : List Step) (v : Value) : Checked Int := do
  let i ← integer place v
  if i < least then refuse place rule else return i

/-- A field that may be `null`. -/
def optional {α : Type} (check : Value → Checked α) : Value → Checked (Option α)
  | .null => .ok none
  | v => some <$> check v

/-- A field that has to be there. -/
def required {α : Type} (data : List (Text × Value)) (name : String)
    (check : List Step → Value → Checked α) : Checked α :=
  match Value.find? (Text.ofString name) data with
  | some v => check [.field name] v
  | none => refuse [.field name] .missing

/-- A field with a default. -/
def withDefault {α : Type} (data : List (Text × Value)) (name : String) (standard : α)
    (check : List Step → Value → Checked α) : Checked α :=
  match Value.find? (Text.ofString name) data with
  | some v => check [.field name] v
  | none => .ok standard

/-- Extensions: at least one, and at least one that is not empty when normalised. -/
def extensions (place : List Step) (v : Value) : Checked (List Text) := do
  let ts ← textList place v
  if ts.isEmpty then refuse place .listTooShort
  else
    match normalExtensions ts with
    | [] => refuse place (.value "extensions must contain at least one non-empty extension")
    | normal => return normal

/-- A level of granularity. -/
def granularity (place : List Step) (v : Value) : Checked Granularity :=
  match Granularity.parse v with
  | .ok g => .ok g
  | .error report => refuse place (.value report)

/-- The text of a query: not empty, and not white space alone. -/
def queryText (place : List Step) (v : Value) : Checked Text := do
  let t ← someText place v
  if t.isBlank then refuse place (.value "text cannot be empty or whitespace") else return t

end Request

open Request

/-- The parameters of searching a directory for entities. -/
structure SurveyRequest where
  root : Text
  extensions : List Text
  excluded : List Text
  maxSnippet : Option Int
  granularity : Granularity
  deriving DecidableEq, Repr

/-- Checks the parameters of searching a directory. -/
def SurveyRequest.check (data : List (Text × Value)) : Checked SurveyRequest :=
  let root := required data "root_dir" someText
  let extensions := required data "extensions" Request.extensions
  let excluded := withDefault data "exclude_dirs" usualExcluded textList
  let maxSnippet := withDefault data "max_snippet_size" none fun place =>
    optional (integerFrom 1 .positive place)
  let granularity := withDefault data "granularity" .fine Request.granularity
  match root, extensions, excluded, maxSnippet, granularity with
  | .ok root, .ok extensions, .ok excluded, .ok maxSnippet, .ok granularity =>
    .ok ⟨root, extensions, excluded, maxSnippet, granularity⟩
  | _, _, _, _, _ =>
    .error (violations root ++ violations extensions ++ violations excluded
      ++ violations maxSnippet ++ violations granularity)

/-- Settings of the embedding service that a request brings along. -/
structure EmbeddingOptions where
  model : Option Text := none
  apiKey : Option Text := none
  apiBase : Option Text := none
  deriving DecidableEq, Repr

/-- Checks settings of the embedding service at a place. -/
def EmbeddingOptions.check (place : List Step) : Value → Checked EmbeddingOptions
  | .object data =>
    let field (name : String) : Checked (Option Text) :=
      match Value.find? (Text.ofString name) data with
      | some v => optional (text (place ++ [.field name])) v
      | none => .ok none
    match field "model", field "api_key", field "api_base" with
    | .ok model, .ok apiKey, .ok apiBase => .ok ⟨model, apiKey, apiBase⟩
    | model, apiKey, apiBase =>
      .error (violations model ++ violations apiKey ++ violations apiBase)
  | _ => refuse place .optionsType

/-- The parameters of a query. -/
structure SearchRequest where
  collection : Text
  text : Text
  topK : Int
  deriving DecidableEq, Repr

/-- Checks the parameters of a query. -/
def SearchRequest.check (data : List (Text × Value)) : Checked SearchRequest :=
  let collection := required data "collection" someText
  let text := required data "text" queryText
  let topK := withDefault data "top_k" 10 (integerFrom 1 .atLeastOne)
  match collection, text, topK with
  | .ok collection, .ok text, .ok topK => .ok ⟨collection, text, topK⟩
  | _, _, _ => .error (violations collection ++ violations text ++ violations topK)

/-- The parameters of searching, embedding and storing. -/
structure BuildRequest where
  index : SurveyRequest
  collection : Text
  url : Option Text
  embedding : EmbeddingOptions
  deriving DecidableEq, Repr

/-- Checks the parameters of searching, embedding and storing. -/
def BuildRequest.check (data : List (Text × Value)) : Checked BuildRequest :=
  let index := SurveyRequest.check data
  let collection := required data "collection" someText
  let url := withDefault data "qdrant_url" none fun place => optional (text place)
  let embedding := withDefault data "embedding" {} EmbeddingOptions.check
  match index, collection, url, embedding with
  | .ok index, .ok collection, .ok url, .ok embedding => .ok ⟨index, collection, url, embedding⟩
  | _, _, _, _ =>
    .error (violations index ++ violations collection ++ violations url ++ violations embedding)

/-- The overrides of the settings that the options of the embedding service are. -/
def EmbeddingOptions.overrides (o : EmbeddingOptions) : Value :=
  .object [("model", .ofText? o.model), ("api_key", .ofText? o.apiKey),
    ("api_base", .ofText? o.apiBase)]

/-- The overrides of the settings that an address of the vector server is. -/
def Settings.urlOverride (url : Option Text) : Value :=
  .object [("qdrant", .object [("url", .ofText? url)])]

/-- The overrides of the settings that a request asks for. -/
def BuildRequest.overrides (r : BuildRequest) : List (Text × Value) :=
  [("embedding", r.embedding.overrides), ("vector_store", Settings.urlOverride r.url)]

end CodeCatalog
