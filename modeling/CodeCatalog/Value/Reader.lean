import CodeCatalog.Value
set_option autoImplicit false

/-!
# Reading a document

The reader of JSON text.  Beside the standard grammar it accepts the names `NaN`,
`Infinity` and `-Infinity` for numbers and an escape for one half of a surrogate pair;
two escapes that form a pair give one code point.  A number with a point or an
exponent is a floating-point number, any other one an integer.  When a key comes twice
in an object the later value counts.

Each step consumes at least one character, so the length of the text bounds the
number of steps.
-/

namespace CodeCatalog.Value

/-- Drops the white space that may stand between the tokens of a document. -/
def skipBlanks (cs : List Char) : List Char :=
  cs.dropWhile fun c => c == ' ' || c == '\n' || c == '\r' || c == '\t'

/-- The value of a hexadecimal digit. -/
def hexDigit? (c : Char) : Option Nat :=
  if '0' ≤ c && c ≤ '9' then some (c.toNat - 0x30)
  else if 'a' ≤ c && c ≤ 'f' then some (c.toNat - 0x61 + 10)
  else if 'A' ≤ c && c ≤ 'F' then some (c.toNat - 0x41 + 10)
  else none

/-- Reads the four hexadecimal digits of an escape. -/
def readHex? : List Char → Option (Nat × List Char)
  | a :: b :: c :: d :: rest => do
    let a ← hexDigit? a
    let b ← hexDigit? b
    let c ← hexDigit? c
    let d ← hexDigit? d
    return (((a * 16 + b) * 16 + c) * 16 + d, rest)
  | _ => none

/-- The character of a one-letter escape. -/
def escaped? (c : Char) : Option Char :=
  match c with
  | '"' => some '"'
  | '\\' => some '\\'
  | '/' => some '/'
  | 'b' => some '\x08'
  | 'f' => some '\x0C'
  | 'n' => some '\n'
  | 'r' => some '\r'
  | 't' => some '\t'
  | _ => none

/-- Reads the rest of an escape after `\u`: four digits, or two escapes that form a
surrogate pair. -/
def readUnicode? (cs : List Char) : Option (Glyph × List Char) := do
  let (high, rest) ← readHex? cs
  let single := (Glyph.ofCode high, rest)
  if 0xD800 ≤ high && high < 0xDC00 then
    match rest with
    | '\\' :: 'u' :: more =>
      let (low, rest) ← readHex? more
      if 0xDC00 ≤ low && low < 0xE000 then
        return (Glyph.ofCode (0x10000 + (high - 0xD800) * 0x400 + (low - 0xDC00)), rest)
      else return single
    | _ => return single
  else return single

/-- Reads a string after its opening quote; `done` holds what has been read, last code
point first. -/
def readString? : (steps : Nat) → (done : Text) → List Char → Option (Text × List Char)
  | 0, _, _ => none
  | _ + 1, _, [] => none
  | _ + 1, done, '"' :: rest => some (done.reverse, rest)
  | steps + 1, done, '\\' :: 'u' :: rest =>
    match readUnicode? rest with
    | none => none
    | some (g, rest) => readString? steps (g :: done) rest
  | steps + 1, done, '\\' :: c :: rest =>
    match escaped? c with
    | none => none
    | some e => readString? steps (.scalar e :: done) rest
  | steps + 1, done, c :: rest =>
    if c.toNat < 0x20 then none else readString? steps (.scalar c :: done) rest

/-- The leading decimal digits and what follows them. -/
def spanDigits (cs : List Char) : List Char × List Char :=
  (cs.takeWhile Char.isDigit, cs.dropWhile Char.isDigit)

/-- The number of a list of decimal digits. -/
def numberOf (ds : List Char) : Nat := ds.foldl (fun n c => n * 10 + (c.toNat - 0x30)) 0

/-- Reads the integer part: a zero, or digits that do not begin with one. -/
def readWhole? (cs : List Char) : Option (List Char × List Char) :=
  match cs with
  | '0' :: rest => some (['0'], rest)
  | _ =>
    match spanDigits cs with
    | ([], _) => none
    | r => some r

/-- Reads a fraction: a point and at least one digit. -/
def readFraction (cs : List Char) : Option (List Char × List Char) :=
  match cs with
  | '.' :: rest =>
    match spanDigits rest with
    | ([], _) => none
    | r => some r
  | _ => none

/-- Reads an exponent: the letter, perhaps a sign, and at least one digit. -/
def readPower (cs : List Char) : Option (Int × List Char) :=
  match cs with
  | e :: rest =>
    if e == 'e' || e == 'E' then
      let (negative, rest) := match rest with
        | '-' :: rest => (true, rest)
        | '+' :: rest => (false, rest)
        | rest => (false, rest)
      match spanDigits rest with
      | ([], _) => none
      | (ds, rest) => some (if negative then -(numberOf ds) else numberOf ds, rest)
    else none
  | [] => none

/-- Reads a number whose sign has been read. -/
def readNumber? (negative : Bool) (cs : List Char) : Option (Value × List Char) := do
  let (whole, rest) ← readWhole? cs
  match readFraction rest, readPower ((readFraction rest).elim rest Prod.snd) with
  | none, none =>
    if Text.maxIntegerDigits < whole.length then none
    else
      let n : Int := numberOf whole
      return (.int (if negative then -n else n), rest)
  | some (fraction, rest), none =>
    return (.float (Double.ofDecimal negative (numberOf (whole ++ fraction)) (-fraction.length)),
      rest)
  | none, some (power, rest) =>
    return (.float (Double.ofDecimal negative (numberOf whole) power), rest)
  | some (fraction, _), some (power, rest) =>
    return (.float (Double.ofDecimal negative (numberOf (whole ++ fraction))
      (power - fraction.length)), rest)

/-- Reads a value that is neither a string nor a list nor an object. -/
def readScalar? (cs : List Char) : Option (Value × List Char) :=
  match cs with
  | 'n' :: 'u' :: 'l' :: 'l' :: rest => some (.null, rest)
  | 't' :: 'r' :: 'u' :: 'e' :: rest => some (.bool true, rest)
  | 'f' :: 'a' :: 'l' :: 's' :: 'e' :: rest => some (.bool false, rest)
  | 'N' :: 'a' :: 'N' :: rest => some (.float (Double.nan false), rest)
  | 'I' :: 'n' :: 'f' :: 'i' :: 'n' :: 'i' :: 't' :: 'y' :: rest =>
    some (.float (Double.infinity false), rest)
  | '-' :: 'I' :: 'n' :: 'f' :: 'i' :: 'n' :: 'i' :: 't' :: 'y' :: rest =>
    some (.float (Double.infinity true), rest)
  | '-' :: rest => readNumber? true rest
  | _ => readNumber? false cs

/-- Why a text is no document that can be read. -/
inductive Flaw where
  | malformed
  /-- Values are nested too deep; the type is that of the first that is too deep. -/
  | tooDeep (type : String)
  deriving DecidableEq, Repr

mutual

/-- Reads one value, in which lists and objects are nested up to a depth, and returns what
follows it. -/
def readValue : (steps depth : Nat) → List Char → Except Flaw (Value × List Char)
  | 0, _, _ => .error .malformed
  | steps + 1, depth, cs =>
    match cs, depth with
    | '"' :: rest, _ =>
      match readString? steps [] rest with
      | some (t, rest) => .ok (.text t, rest)
      | none => .error .malformed
    | '[' :: _, 0 => .error (.tooDeep "array")
    | '[' :: rest, depth + 1 =>
      match skipBlanks rest with
      | ']' :: rest => .ok (.list [], rest)
      | rest => readItems steps depth [] rest
    | '\x7b' :: _, 0 => .error (.tooDeep "object")
    | '\x7b' :: rest, depth + 1 =>
      match skipBlanks rest with
      | '\x7d' :: rest => .ok (.object [], rest)
      | rest => readMembers steps depth [] rest
    | cs, _ =>
      match readScalar? cs with
      | some r => .ok r
      | none => .error .malformed

/-- Reads the items of a list that is not empty up to its end; `done` holds the items read,
last first. -/
def readItems : (steps depth : Nat) → (done : List Value) → List Char →
    Except Flaw (Value × List Char)
  | 0, _, _, _ => .error .malformed
  | steps + 1, depth, done, cs =>
    match readValue steps depth cs with
    | .error f => .error f
    | .ok (v, rest) =>
      match skipBlanks rest with
      | ',' :: rest => readItems steps depth (v :: done) (skipBlanks rest)
      | ']' :: rest => .ok (.list (v :: done).reverse, rest)
      | _ => .error .malformed

/-- Reads the members of an object that is not empty up to its end; `done` holds the
members read, last first. -/
def readMembers : (steps depth : Nat) → (done : List (Text × Value)) → List Char →
    Except Flaw (Value × List Char)
  | 0, _, _, _ => .error .malformed
  | steps + 1, depth, done, cs =>
    match cs with
    | '"' :: rest =>
      match readString? steps [] rest with
      | none => .error .malformed
      | some (key, rest) =>
        match skipBlanks rest with
        | ':' :: rest =>
          match readValue steps depth (skipBlanks rest) with
          | .error f => .error f
          | .ok (v, rest) =>
            match skipBlanks rest with
            | ',' :: rest => readMembers steps depth ((key, v) :: done) (skipBlanks rest)
            | '\x7d' :: rest => .ok (ofMembers ((key, v) :: done).reverse, rest)
            | _ => .error .malformed
        | _ => .error .malformed
    | _ => .error .malformed

end

/-- Reads a document, one value with white space around it, in which lists and objects are
nested up to a depth. -/
def readWithin (depth : Nat) (cs : List Char) : Except Flaw Value :=
  match readValue (cs.length + 1) depth (skipBlanks cs) with
  | .error f => .error f
  | .ok (v, rest) => if (skipBlanks rest).isEmpty then .ok v else .error .malformed

/-- Reads a document of any depth. -/
def read? (cs : List Char) : Option Value := (readWithin cs.length cs).toOption

end CodeCatalog.Value
