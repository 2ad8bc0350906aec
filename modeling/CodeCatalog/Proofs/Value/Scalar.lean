import CodeCatalog.Proofs.Text.Utf8
import CodeCatalog.Value.Printer
import CodeCatalog.Value.Reader
import Mathlib.Data.List.TakeWhile
set_option autoImplicit false

/-!
# Reading strings and numbers back

A string is read back from its text code point by code point: a control and the quote and the
backslash from their escapes, any other one from itself.  A number ends where neither a digit nor
another part of it follows, so it is read alike wherever it stands in a document.
-/

namespace CodeCatalog.Value

open Text

/-! ## Strings -/

section

variable {steps : Nat} {done t : Text} {cs rest : List Char} {c : Char}

/-- Four digits are read alike whatever follows. -/
theorem readHex?_append {n : Nat} (h : readHex? cs = some (n, [])) :
    readHex? (cs ++ rest) = some (n, rest) := by
  unfold readHex? at h
  split at h
  · rename_i a b c d more
    simp only [Option.bind_eq_bind, Option.bind_eq_some_iff, Option.pure_def, Option.some.injEq,
      Prod.mk.injEq] at h
    obtain ⟨a', ha, b', hb, c', hc, d', hd, hn, rfl⟩ := h
    simp [readHex?, ha, hb, hc, hd, hn]
  · cases h

theorem readHex?_hexDigits : ∀ n < 0x20, readHex? (hexDigits 4 n).chars = some (n, []) := by
  decide +kernel

theorem ofCode_of_lt : ∀ n < 0x20, Glyph.ofCode n = .scalar (Char.ofNat n) := by
  decide +kernel

theorem readString?_letter {letter : Char} (hletter : escaped? letter = some c) :
    readString? (steps + 1) done ('\\' :: letter :: cs) =
      readString? steps (.scalar c :: done) cs := by
  have hu : letter ≠ 'u' := by
    rintro rfl
    cases hletter
  simp [readString?, hletter]

theorem readString?_unicode (hcontrol : c.toNat < 0x20) :
    readString? (steps + 1) done ('\\' :: 'u' :: ((hexDigits 4 c.toNat).chars ++ cs)) =
      readString? steps (.scalar c :: done) cs := by
  have hlow : ¬ 0xD800 ≤ c.toNat := by omega
  have hc : Char.ofNat c.toNat = c := Char.ofNat_toNat c
  simp [readString?, readUnicode?, readHex?_append (readHex?_hexDigits _ hcontrol), hlow,
    ofCode_of_lt _ hcontrol, hc]

theorem readString?_plain (hquote : c ≠ '"') (hbackslash : c ≠ '\\') (hcontrol : 0x20 ≤ c.toNat) :
    readString? (steps + 1) done (c :: cs) = readString? steps (.scalar c :: done) cs := by
  have hlow : ¬ c.toNat < 0x20 := by omega
  simp [readString?, hbackslash, hlow]

/-- A code point is read back from what stands for it in a string. -/
theorem readString?_jsonGlyph :
    readString? (steps + 1) done ((jsonGlyph (.scalar c)).chars ++ cs) =
      readString? steps (.scalar c :: done) cs := by
  have hletter : ∀ {letter e : Char}, escaped? letter = some e → .scalar c = Glyph.scalar e →
      readString? (steps + 1) done ('\\' :: letter :: cs) =
        readString? steps (.scalar c :: done) cs := by
    rintro letter _ h ⟨⟩
    exact readString?_letter h
  unfold jsonGlyph
  split
  case h_1 h => exact hletter rfl h
  case h_2 h => exact hletter rfl h
  case h_3 h => exact hletter rfl h
  case h_4 h => exact hletter rfl h
  case h_5 h => exact hletter rfl h
  case h_6 h => exact hletter rfl h
  case h_7 h => exact hletter rfl h
  case h_8 hquote hbackslash _ _ _ _ _ =>
    split
    · rename_i hlow
      exact readString?_unicode hlow
    · rename_i hlow
      refine readString?_plain ?_ ?_ (Nat.le_of_not_lt hlow)
      · rintro rfl
        exact hquote rfl
      · rintro rfl
        exact hbackslash rfl

/-- A string without lone surrogates is read back, its closing quote included. -/
theorem readString?_flatMap_jsonGlyph (ht : t.isScalar = true) (hsteps : t.length < steps) :
    readString? steps done (chars (t.flatMap jsonGlyph) ++ '"' :: rest) =
      some (done.reverse ++ t, rest) := by
  induction t generalizing steps done with
  | nil =>
    obtain ⟨steps, rfl⟩ : ∃ n, steps = n + 1 := ⟨steps - 1, by omega⟩
    simp [readString?]
  | cons g t ih =>
    obtain ⟨steps, rfl⟩ : ∃ n, steps = n + 1 := ⟨steps - 1, by omega⟩
    cases g with
    | surrogate offset => cases ht
    | scalar c =>
      rw [List.flatMap_cons, chars_append, List.append_assoc, readString?_jsonGlyph,
        ih ht (Nat.lt_of_succ_lt_succ hsteps)]
      simp

/-- The text of a string consists of code points that a file can hold only if the string does. -/
theorem isScalar_of_isScalar_jsonString (h : (jsonString t).isScalar = true) :
    t.isScalar = true := by
  unfold jsonString at h
  rw [isScalar_append, isScalar_append, Bool.and_eq_true, Bool.and_eq_true] at h
  simp only [isScalar, List.all_flatMap] at h
  refine List.all_eq_true.2 fun g hg => ?_
  have hglyph := List.all_eq_true.1 h.1.2 g hg
  cases g with
  | scalar c => rfl
  | surrogate offset =>
    have hcode : ¬ (Glyph.surrogate offset).code < 0x20 := by simp [Glyph.code]; omega
    simp [jsonGlyph, hcode, Glyph.isScalar] at hglyph

/-- A code point takes at least one character. -/
theorem length_le_length_flatMap_jsonGlyph (ht : t.isScalar = true) :
    t.length ≤ (chars (t.flatMap jsonGlyph)).length := by
  induction t with
  | nil => exact Nat.le_refl 0
  | cons g t ih =>
    cases g with
    | surrogate offset => cases ht
    | scalar c =>
      have hglyph : 0 < (chars (jsonGlyph (.scalar c))).length := by
        unfold jsonGlyph
        split
        case h_8 =>
          split
          · exact Nat.zero_lt_succ _
          · exact Nat.zero_lt_succ _
        all_goals exact Nat.zero_lt_succ _
      have hrest := ih ht
      rw [List.flatMap_cons, chars_append, List.length_append, List.length_cons]
      omega

end

/-! ## Numbers -/

/-- What can follow a value in a document that is printed. -/
inductive Ends : List Char → Prop
  | nothing : Ends []
  | comma (rest : List Char) : Ends (',' :: rest)
  | newline (rest : List Char) : Ends ('\n' :: rest)

variable {cs rest : List Char} {negative : Bool} {d : Char}

/-- No digit follows a value. -/
theorem spanDigits_of_ends (h : Ends rest) : spanDigits rest = ([], rest) := by
  cases h <;> rfl

theorem spanDigits_append (h : Ends rest) :
    spanDigits (cs ++ rest) = ((spanDigits cs).1, (spanDigits cs).2 ++ rest) := by
  induction cs with
  | nil => exact spanDigits_of_ends h
  | cons c cs ih =>
    unfold spanDigits at ih ⊢
    cases hc : c.isDigit with
    | false => simp [hc]
    | true => simpa [hc] using ih

/-- Digits of which there has to be one, and what follows them. -/
def someDigits? (cs : List Char) : Option (List Char × List Char) :=
  match spanDigits cs with
  | ([], _) => none
  | r => some r

theorem someDigits?_append (h : Ends rest) :
    someDigits? (cs ++ rest) = (someDigits? cs).map fun r => (r.1, r.2 ++ rest) := by
  unfold someDigits?
  rw [spanDigits_append h]
  rcases spanDigits cs with ⟨_ | ⟨d, ds⟩, more⟩ <;> rfl

theorem readWhole?_of_ne {c : Char} (hc : c ≠ '0') :
    readWhole? (c :: cs) = someDigits? (c :: cs) := by
  unfold readWhole?
  split
  · simp_all
  · rfl

theorem readWhole?_append (h : Ends rest) :
    readWhole? (cs ++ rest) = (readWhole? cs).map fun r => (r.1, r.2 ++ rest) := by
  cases cs with
  | nil => cases h <;> rfl
  | cons c cs =>
    by_cases hc : c = '0'
    · subst hc
      rfl
    · have hdigits : someDigits? (c :: cs ++ rest) = _ := someDigits?_append h
      rw [List.cons_append] at hdigits ⊢
      rw [readWhole?_of_ne hc, readWhole?_of_ne hc, hdigits]

theorem readFraction_append (h : Ends rest) :
    readFraction (cs ++ rest) = (readFraction cs).map fun r => (r.1, r.2 ++ rest) := by
  cases cs with
  | nil => cases h <;> rfl
  | cons c cs =>
    by_cases hc : c = '.'
    · subst hc
      exact someDigits?_append h
    · simp [readFraction, hc]

/-- The digits of an exponent whose sign has been read. -/
def readUnsignedPower (negative : Bool) (cs : List Char) : Option (Int × List Char) :=
  (someDigits? cs).map fun r => (if negative then -(numberOf r.1) else numberOf r.1, r.2)

theorem readUnsignedPower_append (h : Ends rest) :
    readUnsignedPower negative (cs ++ rest) =
      (readUnsignedPower negative cs).map fun r => (r.1, r.2 ++ rest) := by
  unfold readUnsignedPower
  rw [someDigits?_append h]
  cases someDigits? cs <;> rfl

/-- An exponent is its letter, perhaps a sign, and its digits. -/
theorem readPower_letter {e : Char} (he : (e == 'e' || e == 'E') = true) :
    readPower (e :: cs) =
      match cs with
      | '-' :: cs => readUnsignedPower true cs
      | '+' :: cs => readUnsignedPower false cs
      | cs => readUnsignedPower false cs := by
  simp only [readPower, he, if_true, readUnsignedPower, someDigits?]
  split
  all_goals
    split <;> rename_i hspan <;> simp_all

theorem readPower_append (h : Ends rest) :
    readPower (cs ++ rest) = (readPower cs).map fun r => (r.1, r.2 ++ rest) := by
  cases cs with
  | nil => cases h <;> rfl
  | cons e cs =>
    by_cases he : (e == 'e' || e == 'E') = true
    · rw [List.cons_append, readPower_letter he, readPower_letter he]
      cases cs with
      | nil => cases h <;> rfl
      | cons sign cs =>
        by_cases hminus : sign = '-'
        · subst hminus
          exact readUnsignedPower_append h
        · by_cases hplus : sign = '+'
          · subst hplus
            exact readUnsignedPower_append h
          · have hdigits : readUnsignedPower false (sign :: cs ++ rest) = _ :=
              readUnsignedPower_append h
            simpa [hminus, hplus] using hdigits
    · simp [readPower, he]

theorem readNumber?_append (h : Ends rest) :
    readNumber? negative (cs ++ rest) =
      (readNumber? negative cs).map fun r => (r.1, r.2 ++ rest) := by
  unfold readNumber?
  rw [readWhole?_append h]
  cases readWhole? cs with
  | none => rfl
  | some whole =>
    obtain ⟨whole, more⟩ := whole
    simp only [Option.map_some, Option.bind_eq_bind, Option.bind_some, readFraction_append h]
    cases readFraction more with
    | none =>
      simp only [Option.map_none, Option.elim_none, readPower_append h]
      cases readPower more with
      | none =>
        simp only [Option.map_none]
        split <;> rfl
      | some power => rfl
    | some fraction =>
      simp only [Option.map_some, Option.elim_some, readPower_append h]
      cases readPower fraction.2 with
      | none => rfl
      | some power => rfl

/-! ## Values that are one piece -/

/-- A number starts with a digit. -/
theorem exists_digit_of_readNumber? {r : Value × List Char} (h : readNumber? negative cs = some r) :
    ∃ d more, cs = d :: more ∧ d.isDigit = true := by
  cases cs with
  | nil => cases h
  | cons d more =>
    refine ⟨d, more, rfl, ?_⟩
    by_cases hzero : d = '0'
    · rw [hzero]
      rfl
    · cases hd : d.isDigit with
      | true => rfl
      | false =>
        have hwhole : readWhole? (d :: more) = none := by
          rw [readWhole?_of_ne hzero]
          simp [someDigits?, spanDigits, hd]
        rw [readNumber?, hwhole] at h
        cases h

theorem readScalar?_digit (hd : d.isDigit = true) :
    readScalar? (d :: cs) = readNumber? false (d :: cs) := by
  unfold readScalar?
  split
  case h_8 => rfl
  all_goals
    rename_i heq
    cases heq
    cases hd

theorem readScalar?_minus (hd : d.isDigit = true) :
    readScalar? ('-' :: d :: cs) = readNumber? true (d :: cs) := by
  unfold readScalar?
  split
  case h_6 heq =>
    cases heq
    cases hd
  case h_7 heq =>
    cases heq
    rfl
  case h_8 hminus => exact absurd rfl (hminus _)
  all_goals
    rename_i heq
    cases heq

/-- What is read to its end is read alike in a document. -/
theorem readScalar?_append {v : Value} (hread : readScalar? cs = some (v, [])) (h : Ends rest) :
    readScalar? (cs ++ rest) = some (v, rest) := by
  have hnumber : ∀ {negative cs}, readNumber? negative cs = some (v, []) →
      readNumber? negative (cs ++ rest) = some (v, rest) := by
    intro negative cs hcs
    rw [readNumber?_append h, hcs]
    rfl
  have hcase := hread
  unfold readScalar? at hcase
  split at hcase
  case h_7 =>
    obtain ⟨d, more, rfl, hd⟩ := exists_digit_of_readNumber? hcase
    exact (readScalar?_minus hd).trans (hnumber hcase)
  case h_8 =>
    obtain ⟨d, more, rfl, hd⟩ := exists_digit_of_readNumber? hcase
    exact (readScalar?_digit hd).trans (hnumber hcase)
  all_goals
    cases hcase
    rfl

/-! ## Integers -/

theorem chars_ofNat (n : Nat) : chars (ofNat n) = Nat.toDigits 10 n := by
  rw [ofNat, chars_ofString, Nat.toString_eq_repr, Nat.toList_repr]

theorem chars_ofInt (i : Int) :
    chars (ofInt i) = (if i < 0 then ['-'] else []) ++ Nat.toDigits 10 i.natAbs := by
  rw [ofInt, chars_ofString, Int.toString_eq_repr, Int.repr_eq_if]
  by_cases hi : 0 ≤ i
  · have hnot : ¬ i < 0 := by omega
    have habs : i.toNat = i.natAbs := by omega
    simp [hi, hnot, habs]
  · have hneg : i < 0 := by omega
    have habs : (-i).toNat = i.natAbs := by omega
    simp [hi, hneg, habs]

theorem numberOf_toDigits (n : Nat) : numberOf (Nat.toDigits 10 n) = n := by
  have hfold := Nat.ofDigitChars_ten_toDigits (n := n)
  rw [Nat.ofDigitChars_eq_foldl] at hfold
  simpa [numberOf, Nat.mul_comm] using hfold

/-- Only zero is written with a zero in front. -/
theorem eq_zero_of_head?_toDigits {n : Nat} (h : (Nat.toDigits 10 n).head? = some '0') :
    n = 0 := by
  induction n using Nat.strongRecOn with
  | ind n ih =>
    by_cases hn : n < 10
    · rw [Nat.toDigits_of_lt_base hn] at h
      simpa using h
    · have hquotient : n / 10 = 0 := by
        refine ih (n / 10) (by omega) ?_
        rw [Nat.toDigits_of_base_le (by omega) (by omega)] at h
        cases hds : Nat.toDigits 10 (n / 10) with
        | nil => exact absurd hds Nat.toDigits_ne_nil
        | cons d ds => simpa [hds] using h
      omega

theorem readWhole?_toDigits (n : Nat) :
    readWhole? (Nat.toDigits 10 n) = some (Nat.toDigits 10 n, []) := by
  have hdigits : ∀ c ∈ Nat.toDigits 10 n, c.isDigit = true := fun c hc =>
    Nat.isDigit_of_mem_toDigits (by omega) (by omega) hc
  have hzero : (Nat.toDigits 10 n).head? = some '0' → Nat.toDigits 10 n = ['0'] := by
    intro h
    rw [eq_zero_of_head?_toDigits h]
    rfl
  cases hds : Nat.toDigits 10 n with
  | nil => exact absurd hds Nat.toDigits_ne_nil
  | cons d ds =>
    rw [hds] at hdigits hzero
    by_cases hd : d = '0'
    · rw [hzero (congrArg some hd)]
      rfl
    · have hspan : spanDigits (d :: ds) = (d :: ds, []) := by
        rw [spanDigits, List.takeWhile_eq_self_iff.2 hdigits, List.dropWhile_eq_nil_iff.2 hdigits]
      rw [readWhole?_of_ne hd, someDigits?, hspan]

theorem readNumber?_toDigits {n : Nat} (h : (Nat.toDigits 10 n).length ≤ maxIntegerDigits) :
    readNumber? negative (Nat.toDigits 10 n) = some (.int (if negative then -n else n), []) := by
  have hlong : ¬ maxIntegerDigits < (Nat.toDigits 10 n).length := Nat.not_lt.2 h
  simp [readNumber?, readWhole?_toDigits, readFraction, readPower, hlong, numberOf_toDigits]

/-- An integer that can be printed is read back. -/
theorem readScalar?_jsonInt {i : Int} {t : Text} (h : jsonInt i = .ok t) :
    readScalar? (chars t) = some (.int i, []) := by
  have hlength : (ofNat i.natAbs).length = (Nat.toDigits 10 i.natAbs).length := by
    rw [← chars_ofNat, ofNat, chars_ofString, ofString, List.length_map]
  unfold jsonInt at h
  split at h
  · rename_i hlong
    cases h
    rw [isShort, decide_eq_true_eq, hlength] at hlong
    cases hds : Nat.toDigits 10 i.natAbs with
    | nil => exact absurd hds Nat.toDigits_ne_nil
    | cons d ds =>
      have hd : d.isDigit = true :=
        Nat.isDigit_of_mem_toDigits (b := 10) (n := i.natAbs) (by omega) (by omega) (by simp [hds])
      rw [chars_ofInt]
      split
      · have hread : readNumber? true _ = _ := readNumber?_toDigits hlong
        rw [hds] at hread ⊢
        refine (readScalar?_minus hd).trans (hread.trans ?_)
        have habs : -(i.natAbs : Int) = i := by omega
        rw [if_pos rfl, habs]
      · have hread : readNumber? false _ = _ := readNumber?_toDigits hlong
        rw [hds] at hread ⊢
        refine (readScalar?_digit hd).trans (hread.trans ?_)
        have habs : (i.natAbs : Int) = i := by omega
        rw [if_neg Bool.false_ne_true, habs]
  · cases h

end CodeCatalog.Value
