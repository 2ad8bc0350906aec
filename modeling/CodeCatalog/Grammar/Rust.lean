import CodeCatalog.Grammar
set_option autoImplicit false

/-!
# The Rust grammar
-/

namespace CodeCatalog.Grammar

/-- The rules for Rust. -/
def rustRules : List (String × Rule) :=
  [("function_item", { kind := Kind.function, callable := true }),
    ("struct_item", { kind := Kind.struct }),
    ("union_item", { kind := Kind.struct }),
    ("enum_item", { kind := Kind.enum }),
    ("trait_item", { kind := Kind.trait }),
    ("impl_item", {
      kind := Kind.impl, nameFields := ["type"], scope := some .typeScope,
      labelRule := some .implementation }),
    ("mod_item", { kind := Kind.moduleScope, scope := some .moduleScope }),
    ("use_declaration", {
      kind := Kind.importItem, nameRule := some .wholeText, wholeSignature := true }),
    ("extern_crate_declaration", {
      kind := Kind.importItem, nameRule := some .wholeText, wholeSignature := true }),
    ("const_item", { kind := Kind.constant, wholeSignature := true }),
    ("static_item", { kind := Kind.variableBinding, wholeSignature := true }),
    ("type_item", { kind := Kind.typeAlias, wholeSignature := true })]

/-- Rust. -/
def rust : Grammar where
  name := "rust"
  extensions := ["rs"]
  rules := rustRules
  docStyle := .rust
  commentTypes := ["line_comment", "block_comment"]
  transparentTypes := ["attribute_item"]
  separator := "::"

end CodeCatalog.Grammar
