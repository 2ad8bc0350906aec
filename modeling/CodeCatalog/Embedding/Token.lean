import CodeCatalog.Value.Key
set_option autoImplicit false

/-!
# Tokens

How a model sees a text: as tokens of a fixed number of code points, the last of which may
be shorter.  A text that a model is given is cut to the greatest number of tokens that it
takes.
-/

namespace CodeCatalog

/-- The start of the names of the models that have an encoding of their own. -/
def ownEncodingStart : String := "text-embedding-"

/-- The number of code points of a model's tokens, less one, so that it cannot be zero. -/
def tokenTail (model : Text) : Nat := if model.startsWith ownEncodingStart then 3 else 2

/-- The same for a model that may be any value; only a text is the name of a model. -/
def Value.tokenTail (model : Value) : Except DataFault Nat :=
  match model with
  | .text name => .ok (CodeCatalog.tokenTail name)
  | v => v.key >>= fun _ => .error (.lacks v.typeName "startswith")

namespace Text

/-- The tokens of a text: a code point and up to `tail` more for each. -/
def tokens (tail : Nat) : Text → List Text
  | [] => []
  | g :: rest => (g :: rest.take tail) :: tokens tail (rest.drop tail)
termination_by t => t.length
decreasing_by simp only [List.length_drop, List.length_cons]; omega

/-- The number of tokens of a text. -/
def tokenCount (model : Value) (t : Text) : Except DataFault Nat :=
  model.tokenTail.map fun tail => (t.tokens tail).length

/-- Whether a text may have more than `limit` tokens: a token has at least one byte. -/
def mayExceed (limit : Int) (t : Text) : Except DataFault Bool :=
  match Utf8.encode? t with
  | .error u => .error (.unencodable u)
  | .ok bytes => .ok (limit < (bytes.length : Int))

/-- Cuts a text to at most `limit` tokens of a model.  The tokens of a text that cannot have more
are not looked at. -/
def cutToTokens (limit : Int) (model : Value) (t : Text) : Except DataFault Text := do
  if ← t.mayExceed limit then
    let ts := t.tokens (← model.tokenTail)
    if (ts.length : Int) ≤ limit then return t else return (upTo limit ts).flatten
  else return t

end Text

end CodeCatalog
