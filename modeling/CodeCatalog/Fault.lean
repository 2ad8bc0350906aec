import CodeCatalog.Path
import CodeCatalog.Value
set_option autoImplicit false

/-!
# Faults

Everything that can go wrong, by cause.  The faults of the catalog itself are reported
to whoever runs a command; the others come from the services it uses, from values of
the wrong form, or from the file system, and are passed on as they are.
-/

namespace CodeCatalog

/-- Why an operation on a file failed. -/
inductive FileCause where
  | notFound
  | denied
  | exists
  | notDirectory
  | isDirectory
  | nameTooLong
  | tooManyLinks
  /-- No path holds a zero byte. -/
  | zeroByte
  /-- The path has no bytes. -/
  | unencodable (u : Utf8.Unencodable)
  deriving DecidableEq, Repr

/-- A failed operation on a file, with the path as it was asked for. -/
structure FileFault where
  cause : FileCause
  path : Text
  deriving DecidableEq, Repr

/-- The operation was refused by the system; otherwise the path is none that the system could be
asked for. -/
def FileCause.isSystem : FileCause → Bool
  | .zeroByte => false
  | .unencodable _ => false
  | _ => true

/-- The path is none that anything could be found at: nothing is there, or the way to it does
not lead through folders.  A name that is too long is no such path. -/
def FileCause.isAbsence : FileCause → Bool
  | .denied => false
  | .exists => false
  | .isDirectory => false
  | .nameTooLong => false
  | _ => true

/-- The number and the wording of a cause. -/
def FileCause.wording : FileCause → Text
  | .notFound => "[Errno 2] No such file or directory"
  | .denied => "[Errno 13] Permission denied"
  | .exists => "[Errno 17] File exists"
  | .notDirectory => "[Errno 20] Not a directory"
  | .isDirectory => "[Errno 21] Is a directory"
  | .nameTooLong => "[Errno 36] File name too long"
  | .tooManyLinks => "[Errno 40] Too many levels of symbolic links"
  | .zeroByte => "embedded null byte"
  | .unencodable u => u.message

/-- The report on a failed operation on a file. -/
def FileFault.message (f : FileFault) : Text :=
  if f.cause.isSystem then f.cause.wording ++ ": " ++ f.path.quoted else f.cause.wording

/-- How a request to the embedding service fails.  A rate limit carries a code that says which
limit it is. -/
inductive ServiceFault where
  | rateLimited (code : Option Text)
  | unreachable
  | timedOut
  | badCredentials
  | badRequest
  | serverError
  /-- The service could not use the input. -/
  | badInput
  /-- A value of this type names no model. -/
  | noModel (type : String)
  /-- The client broke on a value. -/
  | brokenValue
  /-- The client broke on a key. -/
  | brokenKey
  /-- The connection was reset below the client. -/
  | reset
  deriving DecidableEq, Repr

namespace ServiceFault

/-- The report on a failed request. -/
def message : ServiceFault → Text
  | rateLimited _ => "rate limited"
  | unreachable => "Connection error."
  | timedOut => "Request timed out."
  | badCredentials => "bad key"
  | badRequest => "bad request"
  | serverError => "server error"
  | badInput => "bad input"
  | noModel type => (DataFault.noKey type).message
  | brokenValue => "boom"
  | brokenKey => "'k'"
  | reset => "reset"

/-- The code of a limit that waiting does not lift. -/
def quotaCode : Text := "insufficient_quota"

/-- Whether the same request may succeed later: the rate was limited, unless the quota is used
up, or the service was not reached. -/
def isTransient : ServiceFault → Bool
  | rateLimited code => code != some quotaCode
  | unreachable => true
  | timedOut => true
  | _ => false

end ServiceFault

/-- How a call of the vector server fails. -/
inductive ServerFault where
  | injected (method : String)
  | noCollection (name : Text)
  /-- A value of this type names no collection. -/
  | noName (type : String)
  /-- The limit of a query is no whole number. -/
  | badLimit
  deriving DecidableEq, Repr

/-- The report on a failed call. -/
def ServerFault.message : ServerFault → Text
  | .injected method => Text.ofString ("injected " ++ method ++ " failure")
  | .noCollection name => "Collection " ++ name ++ " not found"
  | .noName type => (DataFault.noKey type).message
  | .badLimit => "slice indices must be integers or None or have an __index__ method"

/-- Why an index file could not be written. -/
inductive WriteCause where
  | file (f : FileFault)
  | data (f : DataFault)
  /-- There was no room left for the rest of it. -/
  | noRoom
  deriving DecidableEq, Repr

/-- Why an index file could not be read. -/
inductive ReadCause where
  | file (f : FileFault)
  | malformed
  deriving DecidableEq, Repr

/-- Everything that can go wrong. -/
inductive Fault where
  /-- The path of a folder, shown quoted, leads back to a link on the way to it. -/
  | linkLoop (shown : Text)
  /-- A document is nested deeper than it can be read; the type is that of the value that was too
  deep. -/
  | nestedTooDeep (type : String)
  /-- The root of a search is no directory. -/
  | notDirectory (root : Text)
  /-- A directory below the root could not be listed. -/
  | walkFailed (root : Text) (cause : FileFault)
  /-- A partial path belongs to several files. -/
  | ambiguous (suffix : Text) (found : List Text)
  /-- A partial path belongs to no file. -/
  | noMatch (suffix root : Text)
  /-- There is no grammar for the extension. -/
  | unsupported (extension : Text)
  | unreadable (path : Text) (cause : FileFault)
  | notUtf8 (path : Text) (malformed : Utf8.Malformed)
  | parserFailed (path : Text) (grammar : String) (report : Text)
  | noTree (path : Text)
  | writeFailed (path : Text) (cause : WriteCause)
  | readFailed (path : Text) (cause : ReadCause)
  | notList (path : Text)
  | malformedEntity (path : Text) (cause : DataFault)
  /-- The service sent another number of vectors than there were texts. -/
  | wrongCount (expected received : Nat)
  | noCredentials
  | noEmbedder
  | badBackend (name : Text)
  | createFailed (collection : Text) (cause : ServerFault)
  | upsertFailed (batch batches first last : Nat) (cause : ServerFault)
  | queryFailed (collection : Text) (cause : ServerFault)
  | malformedPayload (id collection : Text) (cause : DataFault)
  | countFailed (collection : Text) (cause : ServerFault)
  | listFailed (cause : ServerFault)
  | deleteFailed (collection : Text) (cause : ServerFault)
  | service (f : ServiceFault)
  | data (f : DataFault)
  | file (f : FileFault)
  /-- A value, shown quoted, that names no level of granularity. -/
  | badGranularity (report : Text)
  deriving DecidableEq, Repr

namespace Fault

/-- The report on a fault. -/
def message : Fault → Text
  | linkLoop shown => "Symlink loop from " ++ shown
  | nestedTooDeep type =>
    Text.ofString ("maximum recursion depth exceeded while decoding a JSON " ++ type
      ++ " from a unicode string")
  | notDirectory root => "Not a directory: " ++ root
  | walkFailed root cause => "Failed to walk " ++ root ++ ": " ++ cause.message
  | ambiguous suffix found =>
    "Multiple files match '" ++ suffix ++ "': " ++ Text.joinWith ", " found
  | noMatch suffix root => "No file matching '" ++ suffix ++ "' under " ++ root
  | unsupported extension => "Unsupported file extension: " ++ extension
  | unreadable path cause => "Failed to read " ++ path ++ ": " ++ cause.message
  | notUtf8 path malformed => path ++ " is not valid UTF-8: " ++ malformed.message
  | parserFailed path grammar report =>
    "Failed to parse " ++ path ++ Text.ofString (" as " ++ grammar ++ ": ") ++ report
  | noTree path => "Parser returned no tree for " ++ path
  | writeFailed path cause =>
    "Failed to write index file " ++ path ++ ": " ++
      match cause with
      | .file f => f.message
      | .data f => f.message
      | .noRoom => "[Errno 28] No space left on device"
  | readFailed path cause =>
    "Failed to read index file " ++ path ++ ": " ++
      match cause with
      | .file f => f.message
      | .malformed => []
  | notList path => "Index file " ++ path ++ " does not contain a JSON array"
  | malformedEntity path cause => "Malformed entity in " ++ path ++ ": " ++ cause.message
  | wrongCount expected received =>
    "Expected " ++ Text.ofNat expected ++ " embeddings, received " ++ Text.ofNat received
  | noCredentials =>
    "OpenAI API key not found. Set OPENAI_API_KEY or pass an api key explicitly."
  | noEmbedder => "Querying by text requires an embedder"
  | badBackend name => "Unsupported vector store backend: " ++ name
  | createFailed collection cause =>
    "Failed to create collection '" ++ collection ++ "': " ++ cause.message
  | upsertFailed batch batches first last cause =>
    "Failed to upsert batch " ++ Text.ofNat batch ++ "/" ++ Text.ofNat batches ++ " (points "
      ++ Text.ofNat first ++ "-" ++ Text.ofNat last ++ "): " ++ cause.message
  | queryFailed collection cause =>
    "Failed to query collection '" ++ collection ++ "': " ++ cause.message
  | malformedPayload id collection cause =>
    "Malformed payload for point " ++ id ++ " in '" ++ collection ++ "': " ++ cause.message
  | countFailed collection cause =>
    "Failed to count points in '" ++ collection ++ "': " ++ cause.message
  | listFailed cause => "Failed to list collections: " ++ cause.message
  | deleteFailed collection cause =>
    "Failed to delete collection '" ++ collection ++ "': " ++ cause.message
  | service f => f.message
  | data f => f.message
  | file f => f.message
  | badGranularity report => report

/-- The faults of the catalog itself, which a command reports; input that the embedding service
cannot use counts among them. -/
def isReported : Fault → Bool
  | service f => f == .badInput
  | data _ => false
  | file _ => false
  | badGranularity _ => false
  | linkLoop _ => false
  | nestedTooDeep _ => false
  | _ => true

/-- The faults that concern one source file and leave the others alone. -/
def isExtraction : Fault → Bool
  | unsupported _ => true
  | unreadable _ _ => true
  | notUtf8 _ _ => true
  | parserFailed _ _ _ => true
  | noTree _ => true
  | noMatch _ _ => true
  | _ => false

/-- Whether the same request may succeed later. -/
def isTransient : Fault → Bool
  | service f => f.isTransient
  | _ => false

end Fault

/-- A result or a fault of the catalog. -/
abbrev Outcome (α : Type) := Except Fault α

/-- A fault of a value as a fault of the catalog. -/
def Outcome.ofData {α : Type} (r : Except DataFault α) : Outcome α := r.mapError .data

end CodeCatalog
