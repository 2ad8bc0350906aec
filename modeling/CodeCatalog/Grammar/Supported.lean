import CodeCatalog.Grammar.Rust
import CodeCatalog.Grammar.Script
import CodeCatalog.Grammar.Python
import CodeCatalog.Path
import CodeCatalog.Text.Case
set_option autoImplicit false

/-!
# Supported languages

The grammars there are, and the one that a file's suffix chooses.
-/

namespace CodeCatalog.Grammar

/-- The grammars there are. -/
def supported : List Grammar := [rust, typescript, tsx, javascript, python]

/-- The file extensions of the supported languages with their grammars. -/
def byExtension : List (Text × Grammar) :=
  supported.flatMap fun g => g.extensions.map fun e => (Text.ofString e, g)

/-- The grammar of an extension in small letters and without dot. -/
def ofExtension? (extension : Text) : Option Grammar := byExtension.lookup extension

/-- The extensions of the supported languages in order. -/
def knownExtensions : List Text :=
  (byExtension.map Prod.fst).mergeSort Text.atMost

/-- The grammar for a path, by the suffix of its name. -/
def ofPath? (p : Path) : Option Grammar :=
  ofExtension? (p.suffix.lower.dropWhile (· == Path.dot))

end CodeCatalog.Grammar
