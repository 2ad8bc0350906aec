import CodeCatalog.Text
import CodeCatalog.Double
set_option autoImplicit false

/-!
# Entities

An entity is one retrievable unit of code: a function, a type, an import, or a chunk
made of such units.  It carries the source text of the unit, where that text stands,
and perhaps a vector that represents it.

The places that hold text are of a type `τ`.  An entity that was extracted has
`Text` there; one that was loaded from a document has whatever the document holds.
-/

namespace CodeCatalog

/-- Where an entity stands: its file, the scopes around it and its source text. -/
structure Context (τ : Type) where
  filePath : τ
  fileName : τ
  snippet : τ
  moduleName : Option τ
  enclosingType : Option τ
  deriving DecidableEq, Repr

/-- One retrievable unit of code.  Lines count from one. -/
structure Entity (τ : Type) where
  name : τ
  signature : τ
  kind : τ
  docstring : Option τ
  line : Int
  lineFrom : Int
  lineTo : Int
  context : Context τ
  embedding : Option (List Double)
  deriving DecidableEq, Repr

namespace Context

variable {σ τ : Type}

/-- Applies a function to every text of a context. -/
def map (f : τ → σ) (c : Context τ) : Context σ :=
  ⟨f c.filePath, f c.fileName, f c.snippet, c.moduleName.map f, c.enclosingType.map f⟩

end Context

namespace Entity

variable {σ τ : Type}

/-- Applies a function to every text of an entity. -/
def map (f : τ → σ) (e : Entity τ) : Entity σ :=
  { name := f e.name, signature := f e.signature, kind := f e.kind,
    docstring := e.docstring.map f, line := e.line, lineFrom := e.lineFrom, lineTo := e.lineTo,
    context := e.context.map f, embedding := e.embedding }

/-- The source text of an entity. -/
def snippet (e : Entity τ) : τ := e.context.snippet

/-- The path of an entity's file. -/
def filePath (e : Entity τ) : τ := e.context.filePath

/-- The entity's line lies inside its range of lines. -/
def LinesOrdered (e : Entity τ) : Prop := e.lineFrom ≤ e.line ∧ e.line ≤ e.lineTo

instance (e : Entity τ) : Decidable e.LinesOrdered :=
  inferInstanceAs (Decidable (_ ∧ _))

end Entity

/-! ## Kinds -/

namespace Kind

/-- A free function. -/
def function : Text := "Function"
/-- A function of a type. -/
def method : Text := "Method"
/-- A function that renders markup. -/
def component : Text := "Function Component"
/-- A structure. -/
def struct : Text := "Struct"
/-- A class. -/
def classType : Text := "Class"
/-- An enumeration. -/
def enum : Text := "Enum"
/-- An interface. -/
def interface : Text := "Interface"
/-- A trait. -/
def trait : Text := "Trait"
/-- An implementation block. -/
def impl : Text := "Impl"
/-- A module. -/
def moduleScope : Text := "Module"
/-- An import. -/
def importItem : Text := "Import"
/-- A constant. -/
def constant : Text := "Constant"
/-- A variable. -/
def variableBinding : Text := "Variable"
/-- A type alias. -/
def typeAlias : Text := "Type Alias"
/-- A chunk made of entities of different kinds. -/
def mergedChunk : Text := "Merged Chunk"

/-- The kinds that fine-grained merging folds together. -/
def isFine (kind : Text) : Bool :=
  kind == importItem || kind == constant || kind == variableBinding

end Kind

end CodeCatalog
