set_option autoImplicit false

/-!
# Text

The text that a catalog holds: a list of code points.  A text read from a file
consists of Unicode scalar values; an escape in a JSON document can also bring in
a lone surrogate, which no encoded file can hold.  Lengths, cuts and the order of
texts all count code points, so they are the list operations of `List`.
-/

namespace CodeCatalog

/-- The leading elements of a list up to a number; a negative number counts from the end. -/
def upTo {α : Type} (limit : Int) (xs : List α) : List α :=
  if 0 ≤ limit then xs.take limit.toNat else xs.take (xs.length - limit.natAbs)

/-- One code point: a Unicode scalar value, or a lone surrogate by its offset from
`U+D800`. -/
inductive Glyph where
  | scalar (c : Char)
  | surrogate (offset : Fin 2048)
  deriving DecidableEq, Repr, Inhabited

namespace Glyph

/-- The number of the code point. -/
def code : Glyph → Nat
  | .scalar c => c.toNat
  | .surrogate offset => 0xD800 + offset.val

/-- The code point with a given number; a number above the last code point gives the
replacement character. -/
def ofCode (n : Nat) : Glyph :=
  if h : 0xD800 ≤ n ∧ n < 0xE000 then .surrogate ⟨n - 0xD800, by omega⟩
  else if h : n.isValidChar then .scalar (Char.ofNatAux n h)
  else .scalar '\uFFFD'

/-- A code point that a file can hold. -/
def isScalar : Glyph → Bool
  | .scalar _ => true
  | .surrogate _ => false

/-- Membership in a list of ranges of code points, ends included. -/
def within (ranges : List (Nat × Nat)) (g : Glyph) : Bool :=
  ranges.any fun r => r.1 ≤ g.code && g.code ≤ r.2

/-- The line feed. -/
def newline : Glyph := .scalar '\n'

end Glyph

/-- A sequence of code points. -/
abbrev Text := List Glyph

namespace Text

/-- The text of a string, one code point a character. -/
def ofString (s : String) : Text := s.toList.map .scalar

instance : Coe String Text := ⟨ofString⟩

/-- The text of a list of characters. -/
def ofChars (cs : List Char) : Text := cs.map .scalar

/-- The decimal text of an integer. -/
def ofInt (i : Int) : Text := ofString (toString i)

/-- The decimal text of a natural number. -/
def ofNat (n : Nat) : Text := ofString (toString n)

/-- The characters of a text, if it holds no lone surrogate. -/
def toChars? (t : Text) : Option (List Char) :=
  t.mapM fun
    | .scalar c => some c
    | .surrogate _ => none

/-- The string of a text, if it holds no lone surrogate. -/
def toString? (t : Text) : Option String := t.toChars?.map String.ofList

/-- A text without lone surrogates: the ones that a file can hold. -/
def isScalar (t : Text) : Bool := t.all Glyph.isScalar

/-- Drops the longest run of code points in `p` at the end. -/
def dropEndWhile (p : Glyph → Bool) (t : Text) : Text := (t.reverse.dropWhile p).reverse

/-- Drops the longest runs of code points in `p` at both ends. -/
def trimWhile (p : Glyph → Bool) (t : Text) : Text := dropEndWhile p (t.dropWhile p)

/-- Whether the code point is one of the characters of `s`. -/
def oneOf (s : String) (g : Glyph) : Bool := (ofString s).contains g

/-- Whether the text starts with the string `s`. -/
def startsWith (t : Text) (s : String) : Bool := (ofString s).isPrefixOf t

/-- Whether the text ends with the string `s`. -/
def endsWith (t : Text) (s : String) : Bool := (ofString s).isSuffixOf t

/-- The lines of a text: what stands between its line feeds.  There is always one more
line than there are line feeds. -/
def lines (t : Text) : List Text := t.splitOn Glyph.newline

/-- Texts put together with a separator between neighbours. -/
def joinWith (sep : Text) (parts : List Text) : Text := List.intercalate sep parts

/-- Texts put together as lines. -/
def joinLines (parts : List Text) : Text := joinWith [Glyph.newline] parts

/-- The lexicographic order by code point, as a test. -/
def before : Text → Text → Bool
  | _, [] => false
  | [], _ :: _ => true
  | a :: as, b :: bs => a.code < b.code || (a.code == b.code && before as bs)

/-- The reflexive form of `before`. -/
def atMost (a b : Text) : Bool := !before b a

/-- The texts of a list in their first-seen order, each once. -/
def distinct : List Text → List Text
  | [] => []
  | t :: rest => t :: (distinct rest).filter fun u => !(u == t)

end Text

end CodeCatalog
