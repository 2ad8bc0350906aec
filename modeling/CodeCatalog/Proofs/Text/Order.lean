import CodeCatalog.Text
import Mathlib.Data.List.Lex
set_option autoImplicit false

/-!
# The order of texts

Texts are ordered as the lists of the numbers of their code points are.  A code point has its
number alone, so the order is total and strict between different texts.
-/

namespace CodeCatalog

namespace Glyph

/-- No scalar value has the number of a surrogate. -/
theorem code_scalar_ne_surrogate (c : Char) (offset : Fin 2048) :
    (scalar c).code ≠ (surrogate offset).code := by
  have hvalid : c.toNat < 0xD800 ∨ 0xDFFF < c.toNat := by
    rcases c.valid with h | h
    · exact Or.inl h
    · exact Or.inr h.1
  have hoffset := offset.isLt
  simp only [code]
  omega

theorem code_injective {a b : Glyph} (h : a.code = b.code) : a = b := by
  cases a with
  | scalar c =>
    cases b with
    | scalar d => exact congrArg scalar (Char.toNat_inj.1 h)
    | surrogate j => exact absurd h (code_scalar_ne_surrogate c j)
  | surrogate i =>
    cases b with
    | scalar d => exact absurd h.symm (code_scalar_ne_surrogate d i)
    | surrogate j =>
      have hij : i.val = j.val := by
        simp only [code] at h
        omega
      exact congrArg surrogate (Fin.ext hij)

end Glyph

namespace Text

/-- The numbers of the code points of a text. -/
def codes (t : Text) : List Nat := t.map Glyph.code

theorem codes_injective {a b : Text} (h : a.codes = b.codes) : a = b :=
  List.map_inj_right (fun _ _ => Glyph.code_injective) |>.1 h

theorem before_iff {a b : Text} : before a b = true ↔ a.codes < b.codes := by
  induction a generalizing b with
  | nil =>
    cases b with
    | nil => simp [before]
    | cons y ys => simp [before, codes]
  | cons x xs ih =>
    cases b with
    | nil => simp [before, codes]
    | cons y ys =>
      have htail := ih (b := ys)
      simp only [codes] at htail
      simp [before, codes, htail, List.cons_lt_cons_iff]

theorem atMost_iff {a b : Text} : atMost a b = true ↔ a.codes ≤ b.codes := by
  rw [atMost, Bool.not_eq_true', ← Bool.not_eq_true, before_iff, not_lt]

theorem atMost_trans {a b c : Text} (hab : atMost a b = true) (hbc : atMost b c = true) :
    atMost a c = true :=
  atMost_iff.2 (le_trans (atMost_iff.1 hab) (atMost_iff.1 hbc))

theorem atMost_total (a b : Text) : (atMost a b || atMost b a) = true := by
  rw [Bool.or_eq_true, atMost_iff, atMost_iff]
  exact le_total _ _

theorem before_irrefl (a : Text) : ¬before a a = true := fun h =>
  lt_irrefl _ (before_iff.1 h)

/-- Different texts are strictly ordered. -/
theorem before_of_atMost_of_ne {a b : Text} (h : atMost a b = true) (hne : a ≠ b) :
    before a b = true := by
  rw [before_iff]
  rcases lt_or_eq_of_le (atMost_iff.1 h) with hlt | heq
  · exact hlt
  · exact absurd (codes_injective heq) hne

end Text

end CodeCatalog
