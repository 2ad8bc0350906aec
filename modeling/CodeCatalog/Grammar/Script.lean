import CodeCatalog.Grammar
set_option autoImplicit false

/-!
# The TypeScript and JavaScript grammars

The three dialects share their rules and differ in name and file extensions.
-/

namespace CodeCatalog.Grammar

/-- The rule for `const`, `let` and `var`. -/
def scriptBinding : Rule where
  kind := Kind.variableBinding
  declarators := ["variable_declarator"]
  nameFields := ["name"]
  valueFields := ["value"]
  kindRule := some .keyword

/-- The rule for a class. -/
def scriptClass : Rule := { kind := Kind.classType, scope := some .typeScope }

/-- The rule for a namespace or an ambient module. -/
def scriptModule : Rule where
  kind := Kind.moduleScope
  scope := some .moduleScope
  labelRule := some .unquoted

/-- The rules of the family. -/
def scriptRules : List (String × Rule) :=
  [("import_statement", {
      kind := Kind.importItem, nameRule := some .importClause, wholeSignature := true }),
    ("function_declaration", { kind := Kind.function, callable := true }),
    ("generator_function_declaration", { kind := Kind.function, callable := true }),
    ("method_definition", { kind := Kind.method }),
    ("class_declaration", scriptClass),
    ("abstract_class_declaration", scriptClass),
    ("interface_declaration", { kind := Kind.interface }),
    ("enum_declaration", { kind := Kind.enum }),
    ("type_alias_declaration", { kind := Kind.typeAlias, wholeSignature := true }),
    ("internal_module", scriptModule),
    ("module", scriptModule),
    ("lexical_declaration", scriptBinding),
    ("variable_declaration", scriptBinding),
    ("export_statement", {
      kind := [], unwrapFields := ["declaration"], keepWrapper := true })]

/-- A dialect of the family. -/
def script (name : String) (extensions : List String) : Grammar where
  name := name
  extensions := extensions
  rules := scriptRules
  docStyle := .script
  transparentTypes := ["decorator"]
  markupTypes := ["jsx_element", "jsx_self_closing_element", "jsx_fragment"]
  functionLiterals := ["arrow_function", "function_expression", "function", "generator_function"]

/-- TypeScript. -/
def typescript : Grammar := script "typescript" ["ts", "mts", "cts"]

/-- TypeScript with markup. -/
def tsx : Grammar := script "tsx" ["tsx"]

/-- JavaScript. -/
def javascript : Grammar := script "javascript" ["js", "jsx", "mjs", "cjs"]

end CodeCatalog.Grammar
