import CodeCatalog.Text.Printable
set_option autoImplicit false

/-!
# Quoted text

How a text is shown inside a message: in single quotes, unless it holds a single
quote and no double quote.  Backslashes, the quote itself and code points that are
not printable are escaped.
-/

namespace CodeCatalog.Text

/-- The lower-case hexadecimal digits of `n`, at least `width` of them. -/
def hexDigits (width n : Nat) : Text :=
  let digits := Nat.toDigits 16 n
  ofChars (List.replicate (width - digits.length) '0' ++ digits)

/-- A code point inside quotes of the kind `quote`. -/
def quotedGlyph (quote : Glyph) (g : Glyph) : Text :=
  if g = quote ∨ g = .scalar '\\' then [.scalar '\\', g]
  else if g = .scalar '\t' then "\\t"
  else if g = .scalar '\n' then "\\n"
  else if g = .scalar '\r' then "\\r"
  else if g.isPrintable then [g]
  else if g.code < 0x100 then "\\x" ++ hexDigits 2 g.code
  else if g.code < 0x10000 then "\\u" ++ hexDigits 4 g.code
  else "\\U" ++ hexDigits 8 g.code

/-- The quote that stands around a text. -/
def quoteFor (t : Text) : Glyph :=
  if t.contains (.scalar '\'') && !t.contains (.scalar '"') then .scalar '"' else .scalar '\''

/-- A text as it is shown inside a message. -/
def quoted (t : Text) : Text :=
  let quote := quoteFor t
  quote :: t.flatMap (quotedGlyph quote) ++ [quote]

end CodeCatalog.Text
