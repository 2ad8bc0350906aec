import CodeCatalog.Text
set_option autoImplicit false

/-!
# Lines and joined texts

Joining texts as lines puts one line feed between neighbours, so one more text costs its own
length and one line feed.  A line of a text holds no line feed.  Texts without a separator can be
told from what they are joined to.
-/

namespace CodeCatalog.Text

/-! ## Joined texts -/

@[simp] theorem joinWith_singleton (sep t : Text) : joinWith sep [t] = t :=
  List.intercalate_singleton

theorem joinWith_cons {sep : Text} {ts : List Text} (h : ts ≠ []) (t : Text) :
    joinWith sep (t :: ts) = t ++ sep ++ joinWith sep ts :=
  List.intercalate_cons_of_ne_nil h

/-- The first two texts may be put together before the rest is. -/
theorem joinWith_cons_cons (sep t u : Text) (ts : List Text) :
    joinWith sep (t :: u :: ts) = joinWith sep ((t ++ sep ++ u) :: ts) := by
  cases ts with
  | nil => rw [joinWith_cons (by simp), joinWith_singleton, joinWith_singleton]
  | cons v ts =>
    have hrest : v :: ts ≠ [] := List.cons_ne_nil v ts
    rw [joinWith_cons (List.cons_ne_nil u (v :: ts)), joinWith_cons hrest, joinWith_cons hrest]
    simp only [List.append_assoc]

theorem joinWith_append {sep : Text} {ts us : List Text} (hts : ts ≠ []) (hus : us ≠ []) :
    joinWith sep (ts ++ us) = joinWith sep ts ++ sep ++ joinWith sep us := by
  induction ts with
  | nil => exact absurd rfl hts
  | cons t ts ih =>
    cases ts with
    | nil => rw [List.singleton_append, joinWith_cons hus, joinWith_singleton]
    | cons v vs =>
      rw [List.cons_append, joinWith_cons (by simp), joinWith_cons (by simp), ih (by simp)]
      simp only [List.append_assoc]

theorem mem_of_mem_joinWith {sep : Text} {ts : List Text} {g : Glyph}
    (h : g ∈ joinWith sep ts) : g ∈ sep ∨ ∃ t ∈ ts, g ∈ t := by
  induction ts with
  | nil => exact absurd h List.not_mem_nil
  | cons t ts ih =>
    cases ts with
    | nil =>
      rw [joinWith_singleton] at h
      exact Or.inr ⟨t, List.mem_cons_self, h⟩
    | cons v vs =>
      rw [joinWith_cons (by simp)] at h
      rcases List.mem_append.1 h with h | h
      · rcases List.mem_append.1 h with h | h
        · exact Or.inr ⟨t, List.mem_cons_self, h⟩
        · exact Or.inl h
      · rcases ih h with h | ⟨u, hu, h⟩
        · exact Or.inl h
        · exact Or.inr ⟨u, List.mem_cons_of_mem _ hu, h⟩

/-- Texts without the separator are what the joined text is cut into. -/
theorem joinWith_injective {sep : Glyph} {ts us : List Text} (hts : ts ≠ []) (hus : us ≠ [])
    (htsep : ∀ t ∈ ts, sep ∉ t) (husep : ∀ u ∈ us, sep ∉ u)
    (h : joinWith [sep] ts = joinWith [sep] us) : ts = us := by
  rw [← List.splitOn_intercalate sep htsep hts, ← List.splitOn_intercalate sep husep hus]
  exact congrArg (List.splitOn sep) h

/-! ## Lines -/

@[simp] theorem joinLines_singleton (t : Text) : joinLines [t] = t := joinWith_singleton _ t

/-- One more text behind others follows a line feed. -/
theorem joinLines_concat {ts : List Text} (h : ts ≠ []) (t : Text) :
    joinLines (ts ++ [t]) = joinLines ts ++ Glyph.newline :: t := by
  rw [joinLines, joinWith_append h (by simp), ← joinLines, ← joinLines, joinLines_singleton,
    List.append_assoc]
  rfl

theorem length_joinLines_concat {ts : List Text} (h : ts ≠ []) (t : Text) :
    (joinLines (ts ++ [t])).length = (joinLines ts).length + t.length + 1 := by
  rw [joinLines_concat h, List.length_append, List.length_cons]
  omega

/-- What stands between two separators holds none. -/
theorem separator_notMem_of_mem_splitOn {α : Type} [DecidableEq α] {sep : α} {t part : List α}
    (h : part ∈ t.splitOn sep) : sep ∉ part := by
  induction t generalizing part with
  | nil =>
    rw [List.splitOn_nil, List.mem_singleton] at h
    simp [h]
  | cons g t ih =>
    rw [List.splitOn_cons_eq_if_modifyHead] at h
    split at h
    · rcases List.mem_cons.1 h with rfl | h
      · simp
      · exact ih h
    · rename_i hg
      obtain ⟨first, others, hparts⟩ := List.exists_cons_of_ne_nil (List.splitOn_ne_nil sep t)
      rw [hparts, List.modifyHead_cons] at h
      rcases List.mem_cons.1 h with rfl | h
      · have hfirst : sep ∉ first := ih (by simp [hparts])
        have hne : g ≠ sep := by simpa using hg
        simp [hne.symm, hfirst]
      · exact ih (by simp [hparts, h])

/-- There is one more part than there are separators. -/
theorem length_splitOn {α : Type} [DecidableEq α] (sep : α) (t : List α) :
    (t.splitOn sep).length = t.count sep + 1 := by
  induction t with
  | nil => rfl
  | cons g t ih =>
    rw [List.splitOn_cons_eq_if_modifyHead, List.count_cons]
    split
    · rw [List.length_cons, ih]
    · rw [List.length_modifyHead, ih, Nat.add_zero]

theorem newline_notMem_of_mem_lines {t line : Text} (h : line ∈ t.lines) :
    Glyph.newline ∉ line := separator_notMem_of_mem_splitOn h

/-- Texts without a line feed are the lines of the text that they are joined to. -/
theorem lines_joinLines {ts : List Text} (hne : ts ≠ []) (h : ∀ t ∈ ts, Glyph.newline ∉ t) :
    (joinLines ts).lines = ts := List.splitOn_intercalate Glyph.newline h hne

end CodeCatalog.Text
