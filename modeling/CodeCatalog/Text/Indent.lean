import CodeCatalog.Text.Blank
set_option autoImplicit false

/-!
# Indented text

A text that was written indented inside code is set flush left: tabs become spaces, the
indentation that all lines after the first share is cut, and empty lines at both ends are
dropped.
-/

namespace CodeCatalog.Text

/-- The distance between tab stops. -/
def tabWidth : Nat := 8

/-- Writes tabs as spaces up to the next tab stop; the text starts in the given column, and
columns start again after a line feed or a carriage return. -/
def expandTabsFrom (column : Nat) : Text → Text
  | [] => []
  | g :: rest =>
    if g = .scalar '\t' then
      let width := tabWidth - column % tabWidth
      List.replicate width (.scalar ' ') ++ expandTabsFrom (column + width) rest
    else if g = .scalar '\n' ∨ g = .scalar '\r' then g :: expandTabsFrom 0 rest
    else g :: expandTabsFrom (column + 1) rest

/-- The length of the white space at the start of a line. -/
def indentation (line : Text) : Nat := line.length - line.trimStart.length

/-- The indentation that the lines which are not blank share. -/
def sharedIndentation? (ls : List Text) : Option Nat :=
  ((ls.filter fun l => !l.isBlank).map indentation).min?

/-- Sets the lines of an indented text flush left. -/
def flushLeft (t : Text) : Text :=
  match (expandTabsFrom 0 t).lines with
  | [] => []
  | first :: rest =>
    let cut := match sharedIndentation? rest with
      | some margin => rest.map (List.drop margin)
      | none => rest
    let flush := first.trimStart :: cut
    joinLines ((flush.reverse.dropWhile List.isEmpty).reverse.dropWhile List.isEmpty)

end CodeCatalog.Text
