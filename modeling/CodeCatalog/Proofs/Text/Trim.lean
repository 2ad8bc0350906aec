import CodeCatalog.Proofs.Text.Lines
import CodeCatalog.Text.Blank
import Mathlib.Data.List.DropRight
set_option autoImplicit false

/-!
# Trimmed texts

A text is trimmed if it neither begins nor ends with a code point of those that are trimmed off.
Trimming leaves such a text, and changes none.  Trimmed texts that are not empty stay trimmed when
they are joined.
-/

namespace CodeCatalog.Text

variable {p : Glyph → Bool} {t : Text}

/-- A text that neither begins nor ends with a code point in `p`. -/
structure IsTrimmed (p : Glyph → Bool) (t : Text) : Prop where
  head : ∀ g ∈ t.head?, p g = false
  last : ∀ g ∈ t.getLast?, p g = false

theorem dropEndWhile_eq_rdropWhile (p : Glyph → Bool) (t : Text) :
    t.dropEndWhile p = t.rdropWhile p := rfl

theorem dropEndWhile_eq_nil_iff : t.dropEndWhile p = [] ↔ ∀ g ∈ t, p g = true := by
  rw [dropEndWhile_eq_rdropWhile, List.rdropWhile_eq_nil_iff]

/-- A text has nothing but what is trimmed off if nothing is left of it. -/
theorem trimWhile_eq_nil_iff : t.trimWhile p = [] ↔ ∀ g ∈ t, p g = true := by
  rw [trimWhile, dropEndWhile_eq_nil_iff]
  constructor
  · intro h g hg
    rw [← List.takeWhile_append_dropWhile (p := p) (l := t)] at hg
    rcases List.mem_append.1 hg with hg | hg
    · exact List.mem_takeWhile_imp hg
    · exact h g hg
  · intro h g hg
    exact h g ((List.dropWhile_sublist p).subset hg)

theorem head?_of_dropWhile {g : Glyph} (h : g ∈ (t.dropWhile p).head?) : p g = false := by
  have hhead := List.head?_dropWhile_not p t
  rw [Option.mem_def.1 h] at hhead
  exact hhead

theorem dropWhile_of_head? (h : ∀ g ∈ t.head?, p g = false) : t.dropWhile p = t := by
  cases t with
  | nil => rfl
  | cons g rest => exact List.dropWhile_cons_of_neg (by simp [h g rfl])

theorem dropEndWhile_of_getLast? (h : ∀ g ∈ t.getLast?, p g = false) : t.dropEndWhile p = t := by
  rw [dropEndWhile, dropWhile_of_head? (by simpa using h), List.reverse_reverse]

/-- What is trimmed already stays as it is. -/
theorem IsTrimmed.trimWhile_eq (h : t.IsTrimmed p) : t.trimWhile p = t := by
  rw [trimWhile, dropWhile_of_head? h.head, dropEndWhile_of_getLast? h.last]

/-- Trimming finds a trimmed text in what is put around it to be trimmed off. -/
theorem IsTrimmed.trimWhile_append {before behind : Text} (h : t.IsTrimmed p) (hne : t ≠ [])
    (hbefore : ∀ g ∈ before, p g = true) (hbehind : ∀ g ∈ behind, p g = true) :
    (before ++ (t ++ behind)).trimWhile p = t := by
  have hstart : (t ++ behind).dropWhile p = t ++ behind := by
    refine dropWhile_of_head? fun g hg => h.head g ?_
    rwa [List.head?_append_of_ne_nil _ hne] at hg
  have hend : t.reverse.dropWhile p = t.reverse := by
    refine dropWhile_of_head? fun g hg => h.last g ?_
    rwa [List.head?_reverse] at hg
  have hreverse : ∀ g ∈ behind.reverse, p g = true := fun g hg => hbehind g (List.mem_reverse.1 hg)
  rw [trimWhile, List.dropWhile_append_of_pos hbefore, hstart, dropEndWhile, List.reverse_append,
    List.dropWhile_append_of_pos hreverse, hend, List.reverse_reverse]

/-- What is dropped at the end does not touch the beginning, unless nothing is left. -/
theorem isTrimmed_trimWhile (p : Glyph → Bool) (t : Text) : (t.trimWhile p).IsTrimmed p := by
  constructor
  · intro g hg
    obtain ⟨dropped, hdropped⟩ := List.rdropWhile_prefix p (t.dropWhile p)
    refine head?_of_dropWhile (t := t) ?_
    rw [← hdropped]
    exact List.mem_head?_append_of_mem_head? hg
  · intro g hg
    rw [trimWhile, dropEndWhile, List.getLast?_reverse] at hg
    exact head?_of_dropWhile hg

theorem IsTrimmed.append {u sep : Text} (ht : t.IsTrimmed p) (hu : u.IsTrimmed p) (htne : t ≠ [])
    (hune : u ≠ []) : (t ++ sep ++ u).IsTrimmed p := by
  constructor
  · intro g hg
    rw [List.append_assoc, List.head?_append_of_ne_nil _ htne] at hg
    exact ht.head g hg
  · intro g hg
    rw [List.getLast?_append_of_ne_nil _ hune] at hg
    exact hu.last g hg

theorem joinLines_ne_nil {ts : List Text} (hne : ts ≠ []) (h : ∀ u ∈ ts, u ≠ []) :
    joinLines ts ≠ [] := by
  obtain ⟨first, rest, rfl⟩ := List.exists_cons_of_ne_nil hne
  have hfirst := h first List.mem_cons_self
  cases rest with
  | nil => rwa [joinLines_singleton]
  | cons second rest =>
    rw [joinLines, joinWith_cons (List.cons_ne_nil second rest), List.append_assoc]
    exact List.append_ne_nil_of_left_ne_nil hfirst _

/-- Texts that are trimmed and not empty are trimmed when they are joined. -/
theorem isTrimmed_joinLines {ts : List Text} (h : ∀ u ∈ ts, u.IsTrimmed p ∧ u ≠ []) :
    (joinLines ts).IsTrimmed p := by
  induction ts with
  | nil => exact ⟨by simp [joinLines, joinWith], by simp [joinLines, joinWith]⟩
  | cons first rest ih =>
    obtain ⟨⟨hfirst, hne⟩, hrest⟩ := List.forall_mem_cons.1 h
    cases rest with
    | nil => rwa [joinLines_singleton]
    | cons second rest =>
      rw [joinLines, joinWith_cons (List.cons_ne_nil second rest)]
      refine hfirst.append (ih hrest) hne ?_
      exact joinLines_ne_nil (List.cons_ne_nil second rest) fun u hu => (hrest u hu).2

end CodeCatalog.Text
