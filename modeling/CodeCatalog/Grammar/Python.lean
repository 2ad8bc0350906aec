import CodeCatalog.Grammar
set_option autoImplicit false

/-!
# The Python grammar
-/

namespace CodeCatalog.Grammar

/-- The rule for the import statements. -/
def pythonImport : Rule :=
  { kind := Kind.importItem, nameRule := some .wholeText, wholeSignature := true }

/-- The rules for Python. -/
def pythonRules : List (String × Rule) :=
  [("function_definition", { kind := Kind.function, callable := true }),
    ("class_definition", { kind := Kind.classType, scope := some .typeScope }),
    ("decorated_definition", {
      kind := [], unwrapFields := ["definition"], keepWrapper := true }),
    ("import_statement", pythonImport),
    ("import_from_statement", pythonImport),
    ("future_import_statement", pythonImport),
    ("expression_statement", {
      kind := Kind.variableBinding
      declarators := ["assignment"]
      nameFields := ["left"]
      valueFields := ["right"]
      declaratorNameTypes := ["identifier"]
      kindRule := some .capitals })]

/-- Python. -/
def python : Grammar where
  name := "python"
  extensions := ["py", "pyi"]
  rules := pythonRules
  docStyle := .python
  functionLiterals := ["lambda"]
  bodyDocstring := true

end CodeCatalog.Grammar
