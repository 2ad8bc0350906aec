import CodeCatalog.Value
import CodeCatalog.Text.Blank
set_option autoImplicit false

/-!
# Granularity

How much adjacent entities are merged.  A level is named by a word in any case, with
white space around it; without a name it is the finest.
-/

namespace CodeCatalog

/-- How much adjacent entities are merged, the least first. -/
inductive Granularity where
  | fine
  | medium
  | coarse
  deriving DecidableEq, Repr

namespace Granularity

/-- The rank of a level: the more is merged the greater. -/
def rank : Granularity → Nat
  | fine => 1
  | medium => 2
  | coarse => 3

/-- The name of a level in capitals. -/
def name : Granularity → Text
  | fine => "FINE"
  | medium => "MEDIUM"
  | coarse => "COARSE"

/-- The name of a level in small letters. -/
def label : Granularity → Text
  | fine => "fine"
  | medium => "medium"
  | coarse => "coarse"

/-- The code points beyond ASCII whose capitals are ASCII letters. -/
def foreignCapitals : List (Nat × String) :=
  [(0xDF, "SS"), (0x131, "I"), (0x17F, "S"), (0xFB00, "FF"), (0xFB01, "FI"), (0xFB02, "FL"),
    (0xFB03, "FFI"), (0xFB04, "FFL"), (0xFB05, "ST"), (0xFB06, "ST")]

/-- The capitals of a code point, as far as they are ASCII letters; any other code point
stays. -/
def capital (g : Glyph) : Text :=
  if 0x61 ≤ g.code && g.code ≤ 0x7A then [Glyph.ofCode (g.code - 32)]
  else
    match foreignCapitals.find? fun m => m.1 == g.code with
    | some m => m.2
    | none => [g]

/-- The level that a text names. -/
def ofName? (t : Text) : Option Granularity :=
  let word := t.trim.flatMap capital
  if word = fine.name then some fine
  else if word = medium.name then some medium
  else if word = coarse.name then some coarse
  else none

/-- The report on a value that names no level. -/
def invalid (v : Value) : Text :=
  "Invalid granularity level: " ++ v.quoted ++ ". Use fine, medium, or coarse."

/-- The level that a value names: the finest for `null`. -/
def parse (v : Value) : Except Text Granularity :=
  match v with
  | .null => .ok fine
  | .text t =>
    match ofName? t with
    | some g => .ok g
    | none => .error (invalid v)
  | v => .error (invalid v)

end Granularity

end CodeCatalog
