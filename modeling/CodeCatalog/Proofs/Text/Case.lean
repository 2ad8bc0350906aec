import CodeCatalog.Path
import CodeCatalog.Proofs.Text.Order
import CodeCatalog.Proofs.Text.Trim
import CodeCatalog.Text.Case
import Mathlib.Data.List.Forall2
set_option autoImplicit false

/-!
# Settled texts

Lower-casing sends a run of code points to a run that no row of the table takes any more, so a text
in small letters stays as it is.  White space and dots are neither taken nor given, so a text begins
and ends with one of them exactly if it does so in small letters.
-/

namespace CodeCatalog

/-! ## The table -/

/-- A row of the table of lower-case partners. -/
abbrev Shift := Nat × Nat × Nat × Int

namespace Shift

/-- The row takes the code point with this number. -/
def Takes (r : Shift) (n : Nat) : Prop := r.1 ≤ n ∧ n ≤ r.2.1 ∧ (n - r.1) % r.2.2.1 = 0

instance (r : Shift) (n : Nat) : Decidable (r.Takes n) := inferInstanceAs (Decidable (_ ∧ _))

/-- The number of the partner of a code point. -/
def partner (r : Shift) (n : Nat) : Nat := (n + r.2.2.2).toNat

/-- No code point from `first` to `last` is a partner. -/
def misses (r : Shift) (first last : Nat) : Bool :=
  (r.partner r.2.1).blt first || last.blt (r.partner r.1)

/-- No partner is taken by the other row: it lies outside of it, or between its steps. -/
def settles (r other : Shift) : Bool :=
  r.misses other.1 other.2.1 ||
    other.2.2.1 == 2 && (r.2.2.1 == 2 || r.1 == r.2.1) && (r.partner r.1 - other.1) % 2 == 1

/-- What has no case and is looked for in texts: white space, dots, and the dotted capital I. -/
def reserved : List (Nat × Nat) := (0x2E, 0x2E) :: (0x130, 0x130) :: blankRanges

/-- The partners are code points, and neither they nor what is taken is reserved. -/
def isSound (r : Shift) : Bool :=
  decide (0 ≤ r.1 + r.2.2.2) && (r.partner r.2.1).blt 0x110000 &&
    reserved.all fun range => r.misses range.1 range.2 && (r.2.1.blt range.1 || range.2.blt r.1)

theorem settles_lowerShifts :
    (lowerShifts.all fun r => lowerShifts.all fun other => settles r other) = true := by
  decide +kernel

theorem isSound_lowerShifts : lowerShifts.all isSound = true := by
  decide +kernel

theorem isAscii_or_le : (lowerShifts.all fun r =>
    (r.1 == 0x41 && r.2.1 == 0x5A && r.2.2.2 == 32) || Nat.ble 0x80 r.1) = true := by
  decide +kernel

variable {r other : Shift} {n : Nat}

theorem isSound_of_mem (hr : r ∈ lowerShifts) : 0 ≤ r.1 + r.2.2.2 ∧ r.partner r.2.1 < 0x110000 ∧
    ∀ range ∈ reserved, r.misses range.1 range.2 = true ∧ (r.2.1 < range.1 ∨ range.2 < r.1) := by
  have hsound := List.all_eq_true.1 isSound_lowerShifts r hr
  simpa [isSound, and_assoc] using hsound

theorem coe_partner (hr : r ∈ lowerShifts) (hn : r.1 ≤ n) :
    (r.partner n : Int) = n + r.2.2.2 := by
  have hsound := (isSound_of_mem hr).1
  unfold partner
  omega

/-- What a row misses is no partner of what it takes. -/
theorem outside_of_misses {first last : Nat} (hr : r ∈ lowerShifts) (hn : r.Takes n)
    (h : r.misses first last = true) : r.partner n < first ∨ last < r.partner n := by
  obtain ⟨hfirst, hlast, -⟩ := hn
  have hpartner := coe_partner hr hfirst
  have hpartnerFirst := coe_partner hr (Nat.le_refl r.1)
  have hpartnerLast := coe_partner hr (hfirst.trans hlast)
  simp only [misses, Bool.or_eq_true, Nat.blt_eq] at h
  omega

/-- A partner has no partner. -/
theorem not_takes_partner (hr : r ∈ lowerShifts) (hother : other ∈ lowerShifts)
    (hn : r.Takes n) : ¬other.Takes (r.partner n) := by
  intro hagain
  have hsettles := List.all_eq_true.1 (List.all_eq_true.1 settles_lowerShifts r hr) other hother
  simp only [settles, Bool.or_eq_true, Bool.and_eq_true, beq_iff_eq] at hsettles
  rcases hsettles with hmisses | ⟨⟨hstep, heven⟩, hodd⟩
  · have := outside_of_misses hr hn hmisses
    obtain ⟨hfirst, hlast, -⟩ := hagain
    omega
  · obtain ⟨hfirst, hlast, hrun⟩ := hn
    obtain ⟨hfirst', -, hrun'⟩ := hagain
    have hpartner := coe_partner hr hfirst
    have hpartnerFirst := coe_partner hr (Nat.le_refl r.1)
    rw [hstep] at hrun'
    rcases heven with heven | heven
    · rw [heven] at hrun
      omega
    · omega

end Shift

/-! ## Code points -/

namespace Glyph

variable {g h : Glyph}

theorem code_ofCode {n : Nat} (h : n < 0x110000) : (ofCode n).code = n := by
  unfold ofCode
  by_cases hsurrogate : 0xD800 ≤ n ∧ n < 0xE000
  · rw [dif_pos hsurrogate, code]
    exact Nat.add_sub_of_le hsurrogate.1
  · have hvalid : n.isValidChar := by
      unfold Nat.isValidChar
      omega
    rw [dif_neg hsurrogate, dif_pos hvalid]
    rfl

/-- A code point that lower-casing leaves as it is. -/
structure IsSettled (g : Glyph) : Prop where
  ne_dottedI : g.code ≠ 0x130
  not_takes : ∀ r ∈ lowerShifts, ¬Shift.Takes r g.code

instance (g : Glyph) : Decidable g.IsSettled :=
  decidable_of_iff (g.code ≠ 0x130 ∧ ∀ r ∈ lowerShifts, ¬Shift.Takes r g.code)
    ⟨fun ⟨hne, hnone⟩ => ⟨hne, hnone⟩, fun h => ⟨h.ne_dottedI, h.not_takes⟩⟩

/-- A code point that is neither white space nor a dot. -/
structure IsPlain (g : Glyph) : Prop where
  not_isBlank : g.isBlank = false
  ne_dot : g ≠ Path.dot

instance (g : Glyph) : Decidable g.IsPlain :=
  decidable_of_iff (g.isBlank = false ∧ g ≠ Path.dot)
    ⟨fun ⟨hblank, hdot⟩ => ⟨hblank, hdot⟩, fun h => ⟨h.not_isBlank, h.ne_dot⟩⟩

/-- A code point outside of the reserved ranges is plain. -/
theorem isPlain_of_reserved
    (h : ∀ range ∈ Shift.reserved, g.code < range.1 ∨ range.2 < g.code) : g.IsPlain := by
  constructor
  · rw [isBlank, within, List.any_eq_false]
    intro range hrange
    have := h range (List.mem_cons_of_mem _ (List.mem_cons_of_mem _ hrange))
    simp only [Bool.and_eq_true, decide_eq_true_eq]
    omega
  · rintro rfl
    have := h (0x2E, 0x2E) List.mem_cons_self
    simp [Path.dot, code] at this

/-- What a code point becomes in small letters: it stays, or it is given by the table or by the one
exception to it. -/
theorem lower_cases (g : Glyph) :
    g.IsSettled ∧ g.lower = [g] ∨
      g.code = 0x130 ∧ g.lower = [ofCode 0x69, ofCode 0x307] ∨
      ∃ r ∈ lowerShifts, Shift.Takes r g.code ∧ g.lower = [ofCode (Shift.partner r g.code)] := by
  unfold lower
  by_cases hascii : g.code < 0x80
  · rw [if_pos hascii]
    by_cases hcapital : (decide (0x41 ≤ g.code) && decide (g.code ≤ 0x5A)) = true
    · rw [if_pos hcapital]
      simp only [Bool.and_eq_true, decide_eq_true_eq] at hcapital
      refine .inr (.inr ⟨(0x41, 0x5A, 1, 32), by decide, ?_, rfl⟩)
      exact ⟨hcapital.1, hcapital.2, Nat.mod_one _⟩
    · rw [if_neg hcapital]
      simp only [Bool.and_eq_true, decide_eq_true_eq] at hcapital
      refine .inl ⟨⟨by omega, fun r hr htakes => ?_⟩, rfl⟩
      have hrow := List.all_eq_true.1 Shift.isAscii_or_le r hr
      simp only [Bool.or_eq_true, Bool.and_eq_true, beq_iff_eq, Nat.ble_eq] at hrow
      obtain ⟨hfirst, hlast, -⟩ := htakes
      omega
  · rw [if_neg hascii]
    by_cases hexception : g.code = 0x130
    · exact .inr (.inl ⟨hexception, if_pos hexception⟩)
    · rw [if_neg hexception]
      split
      · rename_i r hr
        have htakes := List.find?_some hr
        simp only [Bool.and_eq_true, decide_eq_true_eq, beq_iff_eq] at htakes
        exact .inr (.inr ⟨r, List.mem_of_find?_eq_some hr,
          ⟨htakes.1.1, htakes.1.2, htakes.2⟩, rfl⟩)
      · rename_i hnone
        refine .inl ⟨⟨hexception, fun r hr htakes => ?_⟩, rfl⟩
        have hrow := List.find?_eq_none.1 hnone r hr
        obtain ⟨hfirst, hlast, hrun⟩ := htakes
        simp [hfirst, hlast, hrun] at hrow

theorem IsSettled.lower_eq (hg : g.IsSettled) : g.lower = [g] := by
  rcases lower_cases g with ⟨-, hlower⟩ | ⟨hexception, -⟩ | ⟨r, hr, htakes, -⟩
  · exact hlower
  · exact absurd hexception hg.ne_dottedI
  · exact absurd htakes (hg.not_takes r hr)

/-- A capital sigma is taken by the table, too. -/
theorem IsSettled.ne_sigma (hg : g.IsSettled) : g.code ≠ 0x3A3 := by
  intro hsigma
  refine hg.not_takes (0x3A3, 0x3AB, 1, 32) (by decide) ?_
  rw [hsigma]
  decide

/-- What can stand for a code point in small letters. -/
structure Becomes (g h : Glyph) : Prop where
  isSettled : h.IsSettled
  same_or_plain : h = g ∨ g.IsPlain ∧ h.IsPlain

theorem becomes_of_mem_lower (hh : h ∈ g.lower) : g.Becomes h := by
  rcases lower_cases g with ⟨hsettled, hlower⟩ | ⟨hexception, hlower⟩ | ⟨r, hr, htakes, hlower⟩
  · rw [hlower, List.mem_singleton] at hh
    subst hh
    exact ⟨hsettled, .inl rfl⟩
  · have hplain : g.IsPlain := by
      rw [code_injective (hexception.trans (code_ofCode (by decide)).symm)]
      decide
    rw [hlower, List.mem_pair] at hh
    rcases hh with rfl | rfl
    · exact ⟨by decide +kernel, .inr ⟨hplain, by decide⟩⟩
    · exact ⟨by decide +kernel, .inr ⟨hplain, by decide⟩⟩
  · rw [hlower, List.mem_singleton] at hh
    subst hh
    obtain ⟨-, hbound, hreserved⟩ := Shift.isSound_of_mem hr
    have hcode : (ofCode (Shift.partner r g.code)).code = Shift.partner r g.code := by
      have hpartner := Shift.coe_partner hr htakes.1
      have hpartnerLast := Shift.coe_partner hr (htakes.1.trans htakes.2.1)
      have := htakes.2.1
      exact code_ofCode (by omega)
    have houtside : ∀ range ∈ Shift.reserved,
        Shift.partner r g.code < range.1 ∨ range.2 < Shift.partner r g.code :=
      fun range hrange => Shift.outside_of_misses hr htakes (hreserved range hrange).1
    refine ⟨⟨?_, fun other hother => ?_⟩, .inr ⟨?_, ?_⟩⟩
    · have := houtside (0x130, 0x130) (by decide)
      rw [hcode]
      omega
    · rw [hcode]
      exact Shift.not_takes_partner hr hother htakes
    · refine isPlain_of_reserved fun range hrange => ?_
      have := (hreserved range hrange).2
      obtain ⟨hfirst, hlast, -⟩ := htakes
      omega
    · refine isPlain_of_reserved ?_
      rw [hcode]
      exact houtside

end Glyph

/-! ## Texts -/

namespace Text

variable {p : Glyph → Bool} {t before : Text}

/-- A text is lower-cased code point by code point. -/
theorem exists_piece (before : Text) (g : Glyph) (rest : Text) :
    ∃ piece : Text, lowerAfter before (g :: rest) = piece ++ lowerAfter (g :: before) rest ∧
      piece ≠ [] ∧ ∀ h ∈ piece, g.Becomes h := by
  rw [lowerAfter]
  refine ⟨_, rfl, ?_⟩
  split
  · rename_i hsigma
    have hg : g = Glyph.ofCode 0x3A3 :=
      Glyph.code_injective (hsigma.trans (Glyph.code_ofCode (by decide)).symm)
    have hplain : g.IsPlain := by
      rw [hg]
      decide
    split
    · refine ⟨List.cons_ne_nil _ _, fun h hh => ?_⟩
      rw [List.mem_singleton.1 hh]
      exact ⟨by decide +kernel, .inr ⟨hplain, by decide⟩⟩
    · refine ⟨List.cons_ne_nil _ _, fun h hh => ?_⟩
      rw [List.mem_singleton.1 hh]
      exact ⟨by decide +kernel, .inr ⟨hplain, by decide⟩⟩
  · refine ⟨?_, fun h => Glyph.becomes_of_mem_lower⟩
    rcases Glyph.lower_cases g with ⟨-, hlower⟩ | ⟨-, hlower⟩ | ⟨r, -, -, hlower⟩ <;>
      simp [hlower]

theorem exists_becomes_of_mem {h : Glyph} (hh : h ∈ lowerAfter before t) :
    ∃ g ∈ t, g.Becomes h := by
  induction t generalizing before with
  | nil => cases hh
  | cons g rest ih =>
    obtain ⟨piece, hlower, -, hbecomes⟩ := exists_piece before g rest
    rw [hlower] at hh
    rcases List.mem_append.1 hh with hh | hh
    · exact ⟨g, List.mem_cons_self, hbecomes h hh⟩
    · obtain ⟨g', hg', hbecomes'⟩ := ih hh
      exact ⟨g', List.mem_cons_of_mem g hg', hbecomes'⟩

/-- Settled code points stay, whatever stands before them. -/
theorem lowerAfter_of_isSettled (ht : ∀ g ∈ t, g.IsSettled) : lowerAfter before t = t := by
  induction t generalizing before with
  | nil => rfl
  | cons g rest ih =>
    obtain ⟨hg, hrest⟩ := List.forall_mem_cons.1 ht
    rw [lowerAfter, if_neg hg.ne_sigma, hg.lower_eq, ih hrest]
    rfl

theorem lower_of_isSettled (ht : ∀ g ∈ t, g.IsSettled) : lower t = t :=
  lowerAfter_of_isSettled ht

theorem isSettled_of_mem_lower {h : Glyph} (hh : h ∈ lower t) : h.IsSettled := by
  obtain ⟨_, _, hbecomes⟩ := exists_becomes_of_mem hh
  exact hbecomes.isSettled

/-- A text in small letters stays as it is. -/
theorem lower_lower (t : Text) : lower (lower t) = lower t :=
  lower_of_isSettled fun _ => isSettled_of_mem_lower

@[simp] theorem lower_eq_nil_iff : lower t = [] ↔ t = [] := by
  cases t with
  | nil => simp [lower, lowerAfter]
  | cons g rest =>
    obtain ⟨piece, hlower, hne, -⟩ := exists_piece [] g rest
    simp [lower, hlower, hne]

/-! ## Both ends -/

/-- The code points of a class that plain ones do not belong to. -/
def SparesPlain (p : Glyph → Bool) : Prop := ∀ g : Glyph, g.IsPlain → p g = false

theorem sparesPlain_isBlank : SparesPlain Glyph.isBlank := fun _ hg => hg.not_isBlank

theorem sparesPlain_dot : SparesPlain (· == Path.dot) := fun _ hg => by simpa using hg.ne_dot

theorem SparesPlain.eq_of_becomes (hp : SparesPlain p) {g h : Glyph} (hh : g.Becomes h) :
    p h = p g := by
  rcases hh.same_or_plain with rfl | ⟨hg, hh⟩
  · rfl
  · rw [hp g hg, hp h hh]

theorem exists_head_lower (g : Glyph) (rest : Text) :
    ∃ h, g.Becomes h ∧ (lower (g :: rest)).head? = some h := by
  obtain ⟨piece, hlower, hne, hbecomes⟩ := exists_piece [] g rest
  obtain ⟨h, others, rfl⟩ := List.exists_cons_of_ne_nil hne
  exact ⟨h, hbecomes h List.mem_cons_self, by rw [lower, hlower]; rfl⟩

theorem exists_last_lowerAfter (before front : Text) (g : Glyph) :
    ∃ h, g.Becomes h ∧ (lowerAfter before (front ++ [g])).getLast? = some h := by
  induction front generalizing before with
  | nil =>
    obtain ⟨piece, hlower, hne, hbecomes⟩ := exists_piece before g []
    refine ⟨piece.getLast hne, hbecomes _ (List.getLast_mem hne), ?_⟩
    rw [List.nil_append, hlower, lowerAfter, List.append_nil, List.getLast?_eq_some_getLast hne]
  | cons g' front ih =>
    obtain ⟨h, hbecomes, hlast⟩ := ih (g' :: before)
    obtain ⟨piece, hlower, -, -⟩ := exists_piece before g' (front ++ [g])
    refine ⟨h, hbecomes, ?_⟩
    rw [List.cons_append, hlower, List.getLast?_append, hlast]
    rfl

/-- A text in small letters begins with a code point of a class exactly if the text does. -/
theorem head_lower_iff (hp : SparesPlain p) :
    (∀ h ∈ (lower t).head?, p h = false) ↔ ∀ g ∈ t.head?, p g = false := by
  cases t with
  | nil => simp [lower, lowerAfter]
  | cons g rest =>
    obtain ⟨h, hbecomes, hhead⟩ := exists_head_lower g rest
    simp [hhead, hp.eq_of_becomes hbecomes]

theorem last_lower_iff (hp : SparesPlain p) :
    (∀ h ∈ (lower t).getLast?, p h = false) ↔ ∀ g ∈ t.getLast?, p g = false := by
  rcases List.eq_nil_or_concat t with rfl | ⟨front, g, rfl⟩
  · simp [lower, lowerAfter]
  · obtain ⟨h, hbecomes, hlast⟩ := exists_last_lowerAfter [] front g
    rw [List.concat_eq_append, lower, hlast]
    simp [hp.eq_of_becomes hbecomes]

/-- So it is trimmed exactly if the text is. -/
theorem isTrimmed_lower_iff (hp : SparesPlain p) : (lower t).IsTrimmed p ↔ t.IsTrimmed p :=
  ⟨fun h => ⟨(head_lower_iff hp).1 h.head, (last_lower_iff hp).1 h.last⟩,
    fun h => ⟨(head_lower_iff hp).2 h.head, (last_lower_iff hp).2 h.last⟩⟩

theorem dot_mem_of_mem_lower : Path.dot ∈ lower t → Path.dot ∈ t := by
  intro hdot
  obtain ⟨g, hg, hbecomes⟩ := exists_becomes_of_mem hdot
  rcases hbecomes.same_or_plain with rfl | ⟨-, hplain⟩
  · exact hg
  · exact absurd rfl hplain.ne_dot

/-! ## Words behind a dot -/

/-- What a search for the end of a word steps over does not matter at its end. -/
theorem touchesCased_append_singleton {g : Glyph} (hg : g.isCaseIgnorable = true) (t : Text) :
    touchesCased (t ++ [g]) = touchesCased t := by
  unfold touchesCased
  rw [List.dropWhile_append]
  cases hrest : t.dropWhile Glyph.isCaseIgnorable with
  | nil => simp [hg]
  | cons g' rest => rfl

theorem lowerAfter_append_singleton {g : Glyph} (hg : g.isCaseIgnorable = true)
    (before t : Text) : lowerAfter (before ++ [g]) t = lowerAfter before t := by
  induction t generalizing before with
  | nil => rfl
  | cons g' rest ih =>
    rw [lowerAfter, lowerAfter, touchesCased_append_singleton hg, ← List.cons_append, ih]

/-- A dot in front is no part of a word. -/
theorem lower_dot_cons (t : Text) : lower (Path.dot :: t) = Path.dot :: lower t := by
  have hdot : Path.dot.isCaseIgnorable = true := by
    decide
  have hlower : Path.dot.lower = [Path.dot] := by
    decide
  rw [lower, lowerAfter, if_neg (by decide), hlower]
  exact congrArg _ (lowerAfter_append_singleton hdot [] t)

end Text

end CodeCatalog
