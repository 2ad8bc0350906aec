import CodeCatalog.Proofs.Value.Document
set_option autoImplicit false

/-!
# How a list ends

Whatever is read of a document is read from its front, so what is left is an end of the text.  A
list is read up to its closing bracket.  So no list is read from a text in which something else is
the last character that is no white space.
-/

namespace CodeCatalog.Value

variable {steps depth : Nat} {cs rest : List Char} {v : Value}

theorem suffix_of_skipBlanks (h : rest <:+ skipBlanks cs) : rest <:+ cs :=
  h.trans (List.dropWhile_suffix _)

theorem tail_suffix {c : Char} (h : c :: rest <:+ cs) : rest <:+ cs :=
  (List.suffix_cons c rest).trans h

/-! ## Strings -/

theorem readHex?_suffix {n : Nat} (h : readHex? cs = some (n, rest)) : rest <:+ cs := by
  unfold readHex? at h
  split at h
  · rename_i a b c d more
    simp only [Option.bind_eq_bind, Option.bind_eq_some_iff, Option.pure_def, Option.some.injEq,
      Prod.mk.injEq] at h
    obtain ⟨-, -, -, -, -, -, -, -, -, rfl⟩ := h
    exact List.suffix_append [a, b, c, d] more
  · cases h

theorem readUnicode?_suffix {g : Glyph} (h : readUnicode? cs = some (g, rest)) : rest <:+ cs := by
  unfold readUnicode? at h
  simp only [Option.bind_eq_bind, Option.bind_eq_some_iff, Option.pure_def] at h
  obtain ⟨⟨high, behind⟩, hhigh, h⟩ := h
  have hbehind := readHex?_suffix hhigh
  split at h
  · split at h
    · rename_i more hmore
      have hmore : behind = '\\' :: 'u' :: more := hmore
      simp only [Option.bind_eq_some_iff] at h
      obtain ⟨⟨low, last⟩, hlow, h⟩ := h
      split at h
      · obtain ⟨-, rfl⟩ := Prod.mk.inj (Option.some.inj h)
        exact (readHex?_suffix hlow).trans (tail_suffix (tail_suffix (hmore ▸ hbehind)))
      · obtain ⟨-, rfl⟩ := Prod.mk.inj (Option.some.inj h)
        exact hbehind
    · obtain ⟨-, rfl⟩ := Prod.mk.inj (Option.some.inj h)
      exact hbehind
  · obtain ⟨-, rfl⟩ := Prod.mk.inj (Option.some.inj h)
    exact hbehind

theorem readString?_suffix {done t : Text} (h : readString? steps done cs = some (t, rest)) :
    rest <:+ cs := by
  fun_induction readString? steps done cs with
  | case3 =>
    cases h
    exact List.suffix_cons _ _
  | case5 steps done behind g more hg ih =>
    exact (ih h).trans ((readUnicode?_suffix hg).trans (List.suffix_append ['\\', 'u'] behind))
  | case7 steps done letter more _ _ _ ih =>
    exact (ih h).trans (List.suffix_append ['\\', letter] more)
  | case9 steps done c more _ _ _ _ ih => exact (ih h).trans (List.suffix_cons c more)
  | _ => cases h

/-! ## Numbers and names -/

theorem someDigits?_suffix {ds : List Char} (h : someDigits? cs = some (ds, rest)) :
    rest <:+ cs := by
  unfold someDigits? at h
  split at h
  · cases h
  · rename_i r hr
    have hrest : rest = (spanDigits cs).2 := (congrArg Prod.snd (Option.some.inj h)).symm
    exact hrest ▸ List.dropWhile_suffix _

theorem readWhole?_suffix {ds : List Char} (h : readWhole? cs = some (ds, rest)) : rest <:+ cs := by
  unfold readWhole? at h
  split at h
  · cases h
    exact List.suffix_cons _ _
  · exact someDigits?_suffix h

theorem readFraction_suffix {ds : List Char} (h : readFraction cs = some (ds, rest)) :
    rest <:+ cs := by
  unfold readFraction at h
  split at h
  · exact (someDigits?_suffix h).trans (List.suffix_cons _ _)
  · cases h

theorem readUnsignedPower_suffix {negative : Bool} {n : Int}
    (h : readUnsignedPower negative cs = some (n, rest)) : rest <:+ cs := by
  obtain ⟨⟨ds, behind⟩, hds, h⟩ := Option.map_eq_some_iff.1 h
  obtain ⟨-, rfl⟩ := Prod.mk.inj h
  exact someDigits?_suffix hds

theorem readPower_suffix {n : Int} (h : readPower cs = some (n, rest)) : rest <:+ cs := by
  cases cs with
  | nil => cases h
  | cons e cs =>
    by_cases he : (e == 'e' || e == 'E') = true
    · rw [readPower_letter he] at h
      refine List.IsSuffix.trans ?_ (List.suffix_cons e cs)
      split at h
      · exact (readUnsignedPower_suffix h).trans (List.suffix_cons _ _)
      · exact (readUnsignedPower_suffix h).trans (List.suffix_cons _ _)
      · exact readUnsignedPower_suffix h
    · simp [readPower, he] at h

/-- A number is written in one piece, and is read from the front. -/
theorem readNumber?_suffix {negative : Bool} (h : readNumber? negative cs = some (v, rest)) :
    rest <:+ cs ∧ v.jsonScalar?.isSome := by
  unfold readNumber? at h
  simp only [Option.bind_eq_bind, Option.bind_eq_some_iff] at h
  obtain ⟨⟨whole, behind⟩, hwhole, h⟩ := h
  have hbehind := readWhole?_suffix hwhole
  split at h
  · split at h
    · cases h
    · cases h
      exact ⟨hbehind, rfl⟩
  · rename_i hfraction _
    cases h
    exact ⟨(readFraction_suffix hfraction).trans hbehind, rfl⟩
  · rename_i hfraction hpower
    rw [hfraction] at hpower
    cases h
    exact ⟨(readPower_suffix hpower).trans hbehind, rfl⟩
  · rename_i hfraction hpower
    rw [hfraction] at hpower
    cases h
    exact ⟨((readPower_suffix hpower).trans (readFraction_suffix hfraction)).trans hbehind, rfl⟩

theorem readScalar?_suffix (h : readScalar? cs = some (v, rest)) :
    rest <:+ cs ∧ v.jsonScalar?.isSome := by
  unfold readScalar? at h
  split at h
  case h_7 =>
    obtain ⟨hrest, hv⟩ := readNumber?_suffix h
    exact ⟨hrest.trans (List.suffix_cons _ _), hv⟩
  case h_8 => exact readNumber?_suffix h
  all_goals
    cases h
    exact ⟨by simp [List.suffix_cons_iff], rfl⟩

/-! ## Lists and objects

The induction is on the steps: a list or an object takes one, and leaves the others to its parts. -/

mutual

/-- A value is read from the front. -/
theorem readValue_suffix {steps depth : Nat} {cs rest : List Char} {v : Value}
    (h : readValue steps depth cs = .ok (v, rest)) : rest <:+ cs := by
  match steps, h with
  | 0, h => cases h
  | steps + 1, h =>
    unfold readValue at h
    split at h
    · split at h
      · rename_i hread
        cases h
        exact (readString?_suffix hread).trans (List.suffix_cons _ _)
      · cases h
    · cases h
    · refine List.IsSuffix.trans ?_ (List.suffix_cons _ _)
      split at h
      · rename_i hend
        cases h
        exact suffix_of_skipBlanks (hend ▸ List.suffix_cons _ _)
      · exact suffix_of_skipBlanks (tail_suffix (readItems_suffix h))
    · cases h
    · refine List.IsSuffix.trans ?_ (List.suffix_cons _ _)
      split at h
      · rename_i hend
        cases h
        exact suffix_of_skipBlanks (hend ▸ List.suffix_cons _ _)
      · exact suffix_of_skipBlanks (readMembers_suffix h)
    · split at h
      · rename_i hread
        cases h
        exact (readScalar?_suffix hread).1
      · cases h

/-- Items are read up to the bracket that closes their list. -/
theorem readItems_suffix {steps depth : Nat} {cs rest : List Char} {v : Value}
    {done : List Value} (h : readItems steps depth done cs = .ok (v, rest)) :
    ']' :: rest <:+ cs := by
  match steps, h with
  | 0, h => cases h
  | steps + 1, h =>
    unfold readItems at h
    split at h
    · cases h
    · rename_i w behind hvalue
      refine List.IsSuffix.trans ?_ (readValue_suffix hvalue)
      split at h
      · rename_i more hcomma
        have hmore := suffix_of_skipBlanks (readItems_suffix h)
        exact suffix_of_skipBlanks (hcomma ▸ hmore.trans (List.suffix_cons _ _))
      · rename_i more hend
        cases h
        exact suffix_of_skipBlanks (hend.symm ▸ List.suffix_rfl)
      · cases h

/-- Members are read from the front. -/
theorem readMembers_suffix {steps depth : Nat} {cs rest : List Char} {v : Value}
    {done : List (Text × Value)}
    (h : readMembers steps depth done cs = .ok (v, rest)) : rest <:+ cs := by
  match steps, h with
  | 0, h => cases h
  | steps + 1, h =>
    unfold readMembers at h
    split at h
    · split at h
      · cases h
      · rename_i key behind hkey
        refine List.IsSuffix.trans ?_ ((readString?_suffix hkey).trans (List.suffix_cons _ _))
        split at h
        · rename_i colon hcolon
          refine suffix_of_skipBlanks (hcolon ▸ ?_)
          refine List.IsSuffix.trans ?_ (List.suffix_cons _ _)
          split at h
          · cases h
          · rename_i w last hvalue
            refine suffix_of_skipBlanks (List.IsSuffix.trans ?_ (readValue_suffix hvalue))
            split at h
            · rename_i more hcomma
              have hmore := suffix_of_skipBlanks (readMembers_suffix h)
              exact suffix_of_skipBlanks (hcomma ▸ hmore.trans (List.suffix_cons _ _))
            · rename_i more hend
              cases h
              exact suffix_of_skipBlanks (hend ▸ List.suffix_cons _ _)
            · cases h
        · cases h
    · cases h

end

/-- What is read as members is an object. -/
theorem exists_object_of_readMembers {done : List (Text × Value)}
    (h : readMembers steps depth done cs = .ok (v, rest)) : ∃ members, v = .object members := by
  induction steps generalizing done cs with
  | zero => cases h
  | succ steps ih =>
    unfold readMembers at h
    repeat' split at h
    all_goals try cases h
    · exact ih h
    · exact ⟨_, rfl⟩

/-- A list is read up to its closing bracket. -/
theorem suffix_of_readValue_list {items : List Value}
    (h : readValue steps depth cs = .ok (.list items, rest)) : ']' :: rest <:+ cs := by
  cases steps with
  | zero => cases h
  | succ steps =>
    unfold readValue at h
    split at h
    · split at h <;> cases h
    · cases h
    · refine List.IsSuffix.trans ?_ (List.suffix_cons _ _)
      split at h
      · rename_i hend
        cases h
        exact suffix_of_skipBlanks (hend.symm ▸ List.suffix_rfl)
      · exact suffix_of_skipBlanks (readItems_suffix h)
    · cases h
    · split at h
      · cases h
      · obtain ⟨members, hmembers⟩ := exists_object_of_readMembers h
        cases hmembers
    · split at h
      · rename_i hread
        cases h
        cases (readScalar?_suffix hread).2
      · cases h

/-- A document that ends with the colon behind a key is no list. -/
theorem readWithin_colon_ne_list {items : List Value} :
    readWithin depth (cs ++ [':', ' ']) ≠ .ok (.list items) := by
  intro h
  unfold readWithin at h
  split at h
  · cases h
  · rename_i v rest hread
    split at h
    · rename_i hblank
      cases h
      have hrest : ∀ c ∈ rest, (c == ' ' || c == '\n' || c == '\r' || c == '\t') = true :=
        List.dropWhile_eq_nil_iff.1 (List.isEmpty_iff.1 hblank)
      obtain ⟨front, hfront⟩ := suffix_of_skipBlanks (suffix_of_readValue_list hread)
      rcases List.append_eq_append_iff.1 hfront with ⟨inner, -, hinner⟩ | ⟨inner, -, hinner⟩
      · have hcolon : ':' ∈ ']' :: rest := by simp [hinner]
        cases hrest ':' (List.mem_of_ne_of_mem (by decide) hcolon)
      · have hbracket : ']' ∈ [':', ' '] := by
          rw [hinner]
          exact List.mem_append_right inner (List.mem_cons_self ..)
        exact absurd hbracket (by decide)
    · cases h

end CodeCatalog.Value
