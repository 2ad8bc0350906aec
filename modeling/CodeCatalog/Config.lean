import CodeCatalog.Value
set_option autoImplicit false

/-!
# Settings

The settings of a catalog are an object with objects for its parts.  They start as
defaults, which variables of the environment and then given values override; a given
`null` overrides nothing.
-/

namespace CodeCatalog

/-- The extensions that are searched for unless others are given. -/
def usualExtensions : List Text := ["rs", "ts", "tsx"]

/-- The directories that are not entered unless others are given. -/
def usualExcluded : List Text :=
  ["node_modules", "target", "dist", "build", ".git", ".vscode", ".idea"]

/-- The variables of the environment with their values. -/
abbrev Environment := List (Text × Text)

namespace Settings

/-- A list of texts as a value. -/
def texts (ts : List Text) : Value := .list (ts.map .text)

/-- The default model of the embedding service. -/
def defaultModel : Text := "text-embedding-3-small"

/-- The default number of components of an embedding. -/
def defaultDimension : Int := 1536

/-- The default address of the vector server. -/
def defaultUrl : Text := "http://localhost:6333"

/-- The default number of points that are sent at once. -/
def usualBatchSize : Int := 256

/-- The default settings for embeddings. -/
def embeddingDefaults : Value :=
  .object [("model", .text defaultModel), ("api_key", .null), ("api_base", .null),
    ("dimension", .int defaultDimension), ("concurrency", .int 10), ("max_retry_seconds", .int 120),
    ("max_input_tokens", .int 8191), ("timeout", .float (Double.ofNat 60))]

/-- The default settings for the vector store. -/
def storeDefaults : Value :=
  .object [("backend", .text "qdrant"), ("collection", .null),
    ("qdrant", .object [("url", .text defaultUrl), ("api_key", .null),
      ("batch_size", .int usualBatchSize)])]

/-- The default settings. -/
def defaults : List (Text × Value) :=
  [("extensions", texts usualExtensions), ("exclude_dirs", texts usualExcluded),
    ("max_snippet_size", .null), ("granularity", .text "fine"), ("embedding", embeddingDefaults),
    ("search", .object [("top_k", .int 10)]), ("vector_store", storeDefaults)]

/-- The variables of the environment and the settings they override. -/
def sources : List (Text × List Text) :=
  [("OPENAI_API_KEY", ["embedding", "api_key"]), ("OPENAI_API_BASE", ["embedding", "api_base"]),
    ("EMBEDDING_MODEL", ["embedding", "model"]),
    ("QDRANT_URL", ["vector_store", "qdrant", "url"]),
    ("QDRANT_API_KEY", ["vector_store", "qdrant", "api_key"]),
    ("CODEINDEX_COLLECTION", ["vector_store", "collection"])]

/-- The members of an object; none for another value. -/
def membersOf : Option Value → List (Text × Value)
  | some (.object members) => members
  | _ => []

/-- Sets the value at a path of keys. -/
def setAt : List Text → Value → List (Text × Value) → List (Text × Value)
  | [], _, members => members
  | [key], v, members => Value.put key v members
  | key :: rest, v, members =>
    Value.put key (.object (setAt rest v (membersOf (Value.find? key members)))) members

/-- The value at a path of keys. -/
def getAt? : List Text → List (Text × Value) → Option Value
  | [], _ => none
  | [key], members => Value.find? key members
  | key :: rest, members => getAt? rest (membersOf (Value.find? key members))

/-- The value of a variable of the environment, if it is set and not empty. -/
def valueOf? (env : Environment) (name : Text) : Option Text :=
  (env.lookup name).filter fun t => !t.isEmpty

/-- The settings that the environment makes of the defaults. -/
def ofEnvironment (env : Environment) : List (Text × Value) :=
  sources.foldl (fun settings entry =>
    match valueOf? env entry.1 with
    | some t => setAt entry.2 (.text t) settings
    | none => settings) defaults

mutual

/-- The value that an override makes of a setting: objects are merged member by member, and
any other value takes the place of the setting. -/
def override (setting : Option Value) : Value → Value
  | .object members =>
    match setting with
    | some (.object inner) => .object (overrideAll inner members)
    | _ => .object members
  | v => v

/-- Applies the overrides of an object to settings. -/
def overrideAll (settings : List (Text × Value)) : List (Text × Value) → List (Text × Value)
  | [] => settings
  | (_, .null) :: rest => overrideAll settings rest
  | (key, v) :: rest =>
    overrideAll (Value.put key (override (Value.find? key settings) v) settings) rest

end

/-- The settings for an environment and overrides. -/
def load (env : Environment) (overrides : List (Text × Value)) : Value :=
  .object (overrideAll (ofEnvironment env) overrides)

/-- A part of the settings, or an empty one if it is missing. -/
def part (settings : Value) (name : Text) : Except DataFault Value := do
  return (← settings.member? name).getD (.object [])

end Settings

end CodeCatalog
