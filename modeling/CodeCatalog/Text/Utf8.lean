import CodeCatalog.Text
set_option autoImplicit false

/-!
# UTF-8

Reading and writing the encoding form of a file.  Bytes are cut into segments: a
well-formed character, or a maximal ill-formed part, which is the longest run that
begins a character and cannot go on.  A tolerant reader shows a replacement
character for each ill-formed part, a strict one refuses at the first.
-/

namespace CodeCatalog

/-- The content of a file. -/
abbrev Bytes := List UInt8

namespace Utf8

/-- Why a run of bytes is no character. -/
inductive Defect where
  | badStart
  | badContinuation
  | truncated
  deriving DecidableEq, Repr

/-- A character, or a maximal ill-formed part. -/
inductive Segment where
  | char (c : Char)
  | bad (bytes : Bytes) (defect : Defect)
  deriving DecidableEq, Repr

/-- The ranges in which the bytes after a leading byte have to lie; nothing for a byte
that leads no character. -/
def tailRanges? (lead : UInt8) : Option (List (UInt8 × UInt8)) :=
  if lead ≤ 0x7F then some []
  else if lead < 0xC2 then none
  else if lead ≤ 0xDF then some [(0x80, 0xBF)]
  else if lead = 0xE0 then some [(0xA0, 0xBF), (0x80, 0xBF)]
  else if lead = 0xED then some [(0x80, 0x9F), (0x80, 0xBF)]
  else if lead ≤ 0xEF then some [(0x80, 0xBF), (0x80, 0xBF)]
  else if lead = 0xF0 then some [(0x90, 0xBF), (0x80, 0xBF), (0x80, 0xBF)]
  else if lead ≤ 0xF3 then some [(0x80, 0xBF), (0x80, 0xBF), (0x80, 0xBF)]
  else if lead = 0xF4 then some [(0x80, 0x8F), (0x80, 0xBF), (0x80, 0xBF)]
  else none

/-- The longest run of bytes that lie in the given ranges, and what stopped it short. -/
def takeTail : List (UInt8 × UInt8) → Bytes → Bytes × Option Defect
  | [], _ => ([], none)
  | _ :: _, [] => ([], some .truncated)
  | r :: rs, b :: bs =>
    if r.1 ≤ b && b ≤ r.2 then
      let t := takeTail rs bs
      (b :: t.1, t.2)
    else ([], some .badContinuation)

/-- The bits that a leading byte contributes, by the number of bytes after it. -/
def leadBits (lead : UInt8) : Nat → Nat
  | 0 => lead.toNat
  | 1 => lead.toNat - 0xC0
  | 2 => lead.toNat - 0xE0
  | _ => lead.toNat - 0xF0

/-- The character of a leading byte and the bytes after it. -/
def charOf (lead : UInt8) (tail : Bytes) : Char :=
  Char.ofNat (tail.foldl (fun n b => n * 64 + (b.toNat - 0x80)) (leadBits lead tail.length))

/-- The first segment of `lead :: rest`, and how many bytes of `rest` belong to it. -/
def firstSegment (lead : UInt8) (rest : Bytes) : Segment × Nat :=
  match tailRanges? lead with
  | none => (.bad [lead] .badStart, 0)
  | some ranges =>
    match takeTail ranges rest with
    | (tail, none) => (.char (charOf lead tail), tail.length)
    | (tail, some defect) => (.bad (lead :: tail) defect, tail.length)

/-- The segments of the bytes after the first `skip`. -/
def segmentsAfter : Nat → Bytes → List Segment
  | _, [] => []
  | skip + 1, _ :: bs => segmentsAfter skip bs
  | 0, b :: bs =>
    let s := firstSegment b bs
    s.1 :: segmentsAfter s.2 bs

/-- The segments of a byte sequence, in order. -/
def segments (bs : Bytes) : List Segment := segmentsAfter 0 bs

/-- The character that stands for a segment in a tolerant reading. -/
def Segment.shown : Segment → Char
  | .char c => c
  | .bad _ _ => '\uFFFD'

/-- The tolerant reading: a replacement character for each maximal ill-formed part. -/
def decodeTolerant (bs : Bytes) : Text := (segments bs).map fun s => .scalar s.shown

/-- The bytes of a text; a lone surrogate has none. -/
def encode (t : Text) : Bytes :=
  t.flatMap fun
    | .scalar c => String.utf8EncodeChar c
    | .surrogate _ => []

/-- The number of bytes of a segment. -/
def Segment.width : Segment → Nat
  | .char c => (String.utf8EncodeChar c).length
  | .bad bytes _ => bytes.length

/-- The first ill-formed part of a byte sequence, with its position. -/
structure Malformed where
  position : Nat
  bytes : Bytes
  defect : Defect
  deriving DecidableEq, Repr

/-- The first ill-formed part among segments that start at `position`. -/
def malformedFrom? (position : Nat) : List Segment → Option Malformed
  | [] => none
  | .char c :: rest => malformedFrom? (position + (Segment.char c).width) rest
  | .bad bytes defect :: _ => some ⟨position, bytes, defect⟩

/-- The strict reading: the characters of the bytes, or the first ill-formed part. -/
def decode (bs : Bytes) : Except Malformed (List Char) :=
  match malformedFrom? 0 (segments bs) with
  | none => .ok ((segments bs).map Segment.shown)
  | some m => .error m

/-- Two hexadecimal digits of a byte. -/
def hexByte (b : UInt8) : String :=
  String.ofList [Nat.digitChar (b.toNat / 16), Nat.digitChar (b.toNat % 16)]

/-- The reason given for an ill-formed part. -/
def Defect.message : Defect → String
  | .badStart => "invalid start byte"
  | .badContinuation => "invalid continuation byte"
  | .truncated => "unexpected end of data"

/-- The report on an ill-formed part: one byte is shown, several are located. -/
def Malformed.message (m : Malformed) : Text :=
  let subject := match m.bytes with
    | [b] => "byte 0x" ++ hexByte b ++ " in position " ++ toString m.position
    | bytes => "bytes in position " ++ toString m.position ++ "-"
        ++ toString (m.position + bytes.length - 1)
  Text.ofString ("'utf-8' codec can't decode " ++ subject ++ ": " ++ m.defect.message)

/-- A run of lone surrogates in a text that was to be encoded. -/
structure Unencodable where
  position : Nat
  first : Fin 2048
  count : Nat
  deriving DecidableEq, Repr

/-- The first run of lone surrogates of a text whose first code point has the given
position. -/
def unencodableFrom? (position : Nat) : Text → Option Unencodable
  | [] => none
  | .scalar _ :: rest => unencodableFrom? (position + 1) rest
  | .surrogate offset :: rest =>
    some ⟨position, offset, 1 + (rest.takeWhile fun g => !g.isScalar).length⟩

/-- The bytes of a text, or the first run of lone surrogates in it. -/
def encode? (t : Text) : Except Unencodable Bytes :=
  match unencodableFrom? 0 t with
  | none => .ok (encode t)
  | some u => .error u

/-- The report on a text that cannot be encoded. -/
def Unencodable.message (u : Unencodable) : Text :=
  let subject :=
    if u.count = 1 then
      "character '\\u" ++ String.ofList (Nat.toDigits 16 (0xD800 + u.first.val)) ++ "' in position "
        ++ toString u.position
    else "characters in position " ++ toString u.position ++ "-"
        ++ toString (u.position + u.count - 1)
  Text.ofString ("'utf-8' codec can't encode " ++ subject ++ ": surrogates not allowed")

end Utf8

end CodeCatalog
