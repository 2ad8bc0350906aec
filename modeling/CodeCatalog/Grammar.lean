import CodeCatalog.Entity
set_option autoImplicit false

/-!
# Grammars

What the extraction knows of a programming language: which node types become entities
and how, what counts as a documentation comment, and which node types are comments,
attributes, markup or function literals.
-/

namespace CodeCatalog

/-- What the body of a container adds to the scope of its members. -/
inductive ScopeKind where
  | moduleScope
  | typeScope
  deriving DecidableEq, Repr

/-- A name that is not simply the text of a child. -/
inductive NameRule where
  /-- The text of the whole node. -/
  | wholeText
  /-- What an import binds or, without that, where it imports from. -/
  | importClause
  deriving DecidableEq, Repr

/-- A shown name that differs from the name. -/
inductive LabelRule where
  /-- An implementation block, with the trait it implements. -/
  | implementation
  /-- A module whose name may be a string literal. -/
  | unquoted
  deriving DecidableEq, Repr

/-- A kind that depends on the node. -/
inductive KindRule where
  /-- A binding is a constant if its keyword says so. -/
  | keyword
  /-- A binding is a constant if its name is in capitals. -/
  | capitals
  deriving DecidableEq, Repr

/-- How nodes of one type become entities.  A rule has one of three shapes: a wrapper, if it
has unwrap fields, stands for the declaration inside it; a declaration, if it has
declarators, gives an entity for each of them; and any other rule is a definition, which
gives one entity and may be a container whose body is searched in an extended scope. -/
structure Rule where
  kind : Text
  nameFields : List String := ["name"]
  nameTypes : List String := []
  bodyFields : List String := ["body"]
  bodyTypes : List String := []
  scope : Option ScopeKind := none
  callable : Bool := false
  wholeSignature : Bool := false
  nameRule : Option NameRule := none
  labelRule : Option LabelRule := none
  kindRule : Option KindRule := none
  declarators : List String := []
  valueFields : List String := ["value"]
  declaratorNameTypes : List String := []
  unwrapFields : List String := []
  keepWrapper : Bool := false
  deriving DecidableEq, Repr

/-- The conventions for documentation comments. -/
inductive DocStyle where
  | rust
  | script
  | python
  deriving DecidableEq, Repr

/-- Whether a comment, without the white space around it, is documentation. -/
def DocStyle.isDoc (style : DocStyle) (comment : Text) : Bool :=
  match style with
  | .rust =>
    comment.startsWith "///" || comment.startsWith "//!" || comment.startsWith "/*!"
      || (comment.startsWith "/**" && !comment.startsWith "/***")
  | .script => comment.startsWith "//" || comment.startsWith "/**"
  | .python => comment.startsWith "#" && !comment.startsWith "#!"

/-- What the extraction knows of a language. -/
structure Grammar where
  name : String
  extensions : List String
  rules : List (String × Rule)
  docStyle : DocStyle
  commentTypes : List String := ["comment"]
  /-- Attributes and decorators, which signatures leave out and documentation passes by. -/
  transparentTypes : List String := []
  markupTypes : List String := []
  functionLiterals : List String := []
  separator : Text := "."
  /-- A string that opens a body is documentation. -/
  bodyDocstring : Bool := false
  deriving DecidableEq, Repr

namespace Grammar

/-- The rule for a node type. -/
def rule? (g : Grammar) (type : String) : Option Rule := g.rules.lookup type

/-- A comment, an attribute or a decorator. -/
def isMarginal (g : Grammar) (type : String) : Bool :=
  g.transparentTypes.contains type || g.commentTypes.contains type

end Grammar

end CodeCatalog
