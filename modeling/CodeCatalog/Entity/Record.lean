import CodeCatalog.Entity
import CodeCatalog.Value.Printer
import CodeCatalog.Text.Blank
set_option autoImplicit false

/-!
# Records

A record is an entity as documents hold it: any value may stand where text belongs,
since only the presence of the fields is checked when one is loaded.  Lines are read as
integers and the components of an embedding as numbers.
-/

namespace CodeCatalog

/-- An entity with any values in the places of text. -/
abbrev Record := Entity Value

namespace Context

/-- The object of a context. -/
def toValue (c : Context Value) : Value :=
  .object [("module", .ofOption c.moduleName), ("file_path", c.filePath),
    ("file_name", c.fileName), ("enclosing_type_name", .ofOption c.enclosingType),
    ("snippet", c.snippet)]

/-- Reads a context.  The first missing field is reported. -/
def ofValue (v : Value) : Except DataFault (Context Value) := do
  let filePath ← v.index "file_path"
  let fileName ← v.index "file_name"
  let snippet ← v.index "snippet"
  let moduleName ← v.member "module"
  let enclosingType ← v.member "enclosing_type_name"
  return ⟨filePath, fileName, snippet, moduleName.toOption, enclosingType.toOption⟩

end Context

namespace Record

/-- The members of a record without its embedding, in their order. -/
def payloadMembers (r : Record) : List (Text × Value) :=
  [("name", r.name), ("signature", r.signature), ("kind", r.kind),
    ("docstring", .ofOption r.docstring), ("line", .int r.line), ("line_from", .int r.lineFrom),
    ("line_to", .int r.lineTo), ("context", r.context.toValue)]

/-- A record without its embedding, as it is stored beside a vector. -/
def payload (r : Record) : Value := .object r.payloadMembers

/-- The object of a record; an absent embedding has no member. -/
def toValue (r : Record) : Value :=
  match r.embedding with
  | none => r.payload
  | some xs =>
    .object (r.payloadMembers ++ [(Text.ofString "embedding", Value.list (xs.map .float))])

/-- Reads an embedding: nothing for `null`, and otherwise a number for each element. -/
def readEmbedding (v : Value) : Except DataFault (Option (List Double)) :=
  match v with
  | .null => .ok none
  | v => do
    let items ← v.elements
    return some (← items.mapM Value.toDouble)

/-- Reads a record.  Fields that are not known are ignored, and the first fault in the order
of the fields is reported. -/
def ofValue (v : Value) : Except DataFault Record := do
  let embedding ← v.member "embedding"
  let name ← v.index "name"
  let signature ← v.index "signature"
  let kind ← v.index "kind"
  let docstring ← v.member "docstring"
  let line ← (← v.index "line").toInteger
  let lineFrom ← (← v.index "line_from").toInteger
  let lineTo ← (← v.index "line_to").toInteger
  let context ← Context.ofValue (← v.index "context")
  let embedding ← readEmbedding embedding
  return ⟨name, signature, kind, docstring.toOption, line, lineFrom, lineTo, context, embedding⟩

/-- The texts of a record, if every value in the place of a text is one. -/
def toEntity? (r : Record) : Option (Entity Text) := do
  let text? : Value → Option Text
    | .text t => some t
    | _ => none
  let optional? (v : Option Value) : Option (Option Text) :=
    match v with
    | none => some none
    | some v => (text? v).map some
  return {
    name := ← text? r.name
    signature := ← text? r.signature
    kind := ← text? r.kind
    docstring := ← optional? r.docstring
    line := r.line
    lineFrom := r.lineFrom
    lineTo := r.lineTo
    context :=
      ⟨← text? r.context.filePath, ← text? r.context.fileName, ← text? r.context.snippet,
        ← optional? r.context.moduleName, ← optional? r.context.enclosingType⟩
    embedding := r.embedding }

/-- The snippet of a record, if it is a text that is not blank. -/
def embeddable? (r : Record) : Option Text :=
  match r.context.snippet with
  | .text t => if t.isBlank then none else some t
  | _ => none

/-- A record without an embedding whose snippet is a text that is not blank. -/
def isPending (r : Record) : Bool := r.embedding.isNone && r.embeddable?.isSome

end Record

/-- The record of an entity. -/
def Entity.toRecord (e : Entity Text) : Record := e.map .text

/-- The document of a list of records. -/
def Record.document (rs : List Record) : Value := .list (rs.map Record.toValue)

end CodeCatalog
