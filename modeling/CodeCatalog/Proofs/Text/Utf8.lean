import CodeCatalog.Text.Utf8
set_option autoImplicit false

/-!
# Texts as bytes

A text can be encoded if it holds no lone surrogate, and its bytes are read back as its
characters: the bytes of a character are a segment, whatever follows them.
-/

namespace CodeCatalog

/-- The characters of a text; a lone surrogate is none. -/
def Text.chars (t : Text) : List Char :=
  t.filterMap fun
    | .scalar c => some c
    | .surrogate _ => none

namespace Text

@[simp] theorem chars_nil : chars [] = [] := rfl

@[simp] theorem chars_scalar (c : Char) (t : Text) : chars (.scalar c :: t) = c :: chars t := rfl

@[simp] theorem chars_append (t u : Text) : chars (t ++ u) = chars t ++ chars u :=
  List.filterMap_append

@[simp] theorem chars_ofString (s : String) : chars (ofString s) = s.toList := by
  rw [ofString, chars, List.filterMap_map]
  exact List.filterMap_some

@[simp] theorem isScalar_append (t u : Text) :
    isScalar (t ++ u) = (isScalar t && isScalar u) := List.all_append

end Text

namespace Utf8

/-! ## What can be encoded -/

/-- A text without lone surrogates has none to start a run. -/
theorem unencodableFrom?_eq_none {t : Text} {k : Nat} :
    unencodableFrom? k t = none ↔ t.isScalar = true := by
  induction t generalizing k with
  | nil => exact iff_of_true rfl rfl
  | cons g rest ih =>
    cases g with
    | scalar c => simpa [Text.isScalar, Glyph.isScalar, unencodableFrom?] using ih
    | surrogate offset => simp [Text.isScalar, Glyph.isScalar, unencodableFrom?]

/-- A text can be encoded exactly if it holds no lone surrogate. -/
theorem encode?_eq_ok {t : Text} {bytes : Bytes} :
    encode? t = .ok bytes ↔ t.isScalar = true ∧ bytes = encode t := by
  rw [← unencodableFrom?_eq_none (k := 0), encode?]
  cases unencodableFrom? 0 t with
  | none => simp [eq_comm]
  | some u => simp

theorem encode_append (t u : Text) : encode (t ++ u) = encode t ++ encode u := List.flatMap_append

/-! ## The bytes of a character -/

/-- A byte of a tail that may be any. -/
abbrev anyTail : UInt8 × UInt8 := (UInt8.ofNat 0x80, UInt8.ofNat 0xBF)

theorem tailRanges?_one : ∀ n < 0x80, tailRanges? (UInt8.ofNat n) = some [] := by
  decide +kernel

theorem tailRanges?_two :
    ∀ n < 0x20, 2 ≤ n → tailRanges? (UInt8.ofNat (n + 0xC0)) = some [anyTail] := by
  decide +kernel

/-- After three leading bits the second byte is neither that of a shorter form nor that of a
surrogate. -/
theorem tailRanges?_three : ∀ n < 0x10, tailRanges? (UInt8.ofNat (n + 0xE0)) =
    some [(UInt8.ofNat (if n = 0 then 0xA0 else 0x80), UInt8.ofNat (if n = 13 then 0x9F else 0xBF)),
      anyTail] := by
  decide +kernel

/-- After four leading bits the second byte is neither that of a shorter form nor beyond the last
code point. -/
theorem tailRanges?_four : ∀ n < 5, tailRanges? (UInt8.ofNat (n + 0xF0)) =
    some [(UInt8.ofNat (if n = 0 then 0x90 else 0x80), UInt8.ofNat (if n = 4 then 0x8F else 0xBF)),
      anyTail, anyTail] := by
  decide +kernel

theorem ofNat_le_ofNat {a b : Nat} (ha : a < 256) (hb : b < 256) :
    UInt8.ofNat a ≤ UInt8.ofNat b ↔ a ≤ b := by
  rw [UInt8.le_iff_toNat_le, UInt8.toNat_ofNat', UInt8.toNat_ofNat', Nat.mod_eq_of_lt ha,
    Nat.mod_eq_of_lt hb]

/-- A byte in range is taken, and the tail goes on behind it. -/
theorem takeTail_cons {low high byte : Nat} {ranges : List (UInt8 × UInt8)} {bs : Bytes}
    (hlow : low ≤ byte) (hhigh : byte ≤ high) (hmax : high < 256) :
    takeTail ((UInt8.ofNat low, UInt8.ofNat high) :: ranges) (UInt8.ofNat byte :: bs) =
      (UInt8.ofNat byte :: (takeTail ranges bs).1, (takeTail ranges bs).2) := by
  have hin : (UInt8.ofNat low ≤ UInt8.ofNat byte && UInt8.ofNat byte ≤ UInt8.ofNat high) =
      true := by
    simp only [Bool.and_eq_true, decide_eq_true_eq]
    rw [ofNat_le_ofNat (by omega) (by omega), ofNat_le_ofNat (by omega) (by omega)]
    exact ⟨hlow, hhigh⟩
  rw [takeTail, if_pos hin]

theorem toNat_ofNat {b : Nat} (h : b < 256) : (UInt8.ofNat b).toNat = b := by
  rw [UInt8.toNat_ofNat', Nat.mod_eq_of_lt h]

theorem charOf_nil (lead : UInt8) : charOf lead [] = Char.ofNat lead.toNat := rfl

theorem charOf_one (lead a : UInt8) :
    charOf lead [a] = Char.ofNat ((lead.toNat - 0xC0) * 64 + (a.toNat - 0x80)) := rfl

theorem charOf_two (lead a b : UInt8) :
    charOf lead [a, b] =
      Char.ofNat (((lead.toNat - 0xE0) * 64 + (a.toNat - 0x80)) * 64 + (b.toNat - 0x80)) := rfl

theorem charOf_three (lead a b c : UInt8) :
    charOf lead [a, b, c] =
      Char.ofNat ((((lead.toNat - 0xF0) * 64 + (a.toNat - 0x80)) * 64 + (b.toNat - 0x80)) * 64 +
        (c.toNat - 0x80)) := rfl

/-- The bytes of a character are a leading byte and a tail that make it a segment. -/
theorem exists_firstSegment (c : Char) :
    ∃ lead tail, String.utf8EncodeChar c = lead :: tail ∧
      ∀ rest, firstSegment lead (tail ++ rest) = (.char c, tail.length) := by
  have hchar : ∀ {v : Nat}, v = c.val.toNat → Char.ofNat v = c := by
    rintro v rfl
    exact Char.ofNat_toNat c
  have hvalid : c.val.toNat < 0xD800 ∨ 0xDFFF < c.val.toNat ∧ c.val.toNat < 0x110000 := c.valid
  unfold String.utf8EncodeChar
  generalize c.val.toNat = v at hchar hvalid ⊢
  dsimp only
  split
  · refine ⟨_, [], rfl, fun rest => ?_⟩
    rw [firstSegment, tailRanges?_one v (by omega)]
    simp only [takeTail]
    rw [charOf_nil, toNat_ofNat (by omega), hchar rfl]
  · split
    · refine ⟨_, [_], rfl, fun rest => ?_⟩
      rw [firstSegment, tailRanges?_two _ (by omega) (by omega)]
      simp only [List.cons_append, List.nil_append]
      rw [takeTail_cons (by omega) (by omega) (by omega)]
      simp only [takeTail]
      rw [charOf_one, toNat_ofNat (by omega), toNat_ofNat (by omega), hchar (by omega)]
    · split
      · refine ⟨_, [_, _], rfl, fun rest => ?_⟩
        rw [firstSegment, tailRanges?_three _ (by omega)]
        simp only [List.cons_append, List.nil_append]
        rw [takeTail_cons (by split <;> omega) (by split <;> omega) (by split <;> omega),
          takeTail_cons (by omega) (by omega) (by omega)]
        simp only [takeTail]
        rw [charOf_two, toNat_ofNat (by omega), toNat_ofNat (by omega), toNat_ofNat (by omega),
          hchar (by omega)]
      · refine ⟨_, [_, _, _], rfl, fun rest => ?_⟩
        have hfour : v / 262144 % 8 < 5 := by omega
        rw [firstSegment, tailRanges?_four _ hfour]
        simp only [List.cons_append, List.nil_append]
        rw [takeTail_cons (by split <;> omega) (by split <;> omega) (by split <;> omega),
          takeTail_cons (by omega) (by omega) (by omega),
          takeTail_cons (by omega) (by omega) (by omega)]
        simp only [takeTail]
        rw [charOf_three, toNat_ofNat (by omega), toNat_ofNat (by omega), toNat_ofNat (by omega),
          toNat_ofNat (by omega), hchar (by omega)]

/-! ## Reading what was encoded -/

theorem segmentsAfter_length_append (bs rest : Bytes) :
    segmentsAfter bs.length (bs ++ rest) = segmentsAfter 0 rest := by
  induction bs with
  | nil => rfl
  | cons b bs ih => exact ih

/-- The segments of a text are its characters. -/
theorem segments_encode (t : Text) : segments (encode t) = t.chars.map .char := by
  unfold segments
  induction t with
  | nil => rfl
  | cons g rest ih =>
    cases g with
    | surrogate offset => exact ih
    | scalar c =>
      obtain ⟨lead, tail, hbytes, hsegment⟩ := exists_firstSegment c
      have hencode : encode (.scalar c :: rest) = lead :: (tail ++ encode rest) := by
        rw [encode, List.flatMap_cons]
        exact congrArg (· ++ encode rest) hbytes
      rw [hencode, segmentsAfter, hsegment, Text.chars_scalar, List.map_cons,
        segmentsAfter_length_append, ih]

theorem malformedFrom?_map_char (cs : List Char) (k : Nat) :
    malformedFrom? k (cs.map .char) = none := by
  induction cs generalizing k with
  | nil => rfl
  | cons c rest ih => exact ih _

/-- The bytes of a text are read back as its characters. -/
theorem decode_encode (t : Text) : decode (encode t) = .ok t.chars := by
  rw [decode, segments_encode, malformedFrom?_map_char, List.map_map]
  exact congrArg Except.ok (List.map_id _)

end Utf8

end CodeCatalog
