import CodeCatalog.Chunk.Split
import CodeCatalog.Proofs.Text.Lines
set_option autoImplicit false

/-!
# Runs of lines and chunks

The runs into which lines are packed put together the lines again, and a run of several lines
stays within the bound.  So does its chunk, since the joined lines are one line feed shorter than
the lines are counted.  A chunk of a single line has no line feed.
-/

namespace CodeCatalog

/-- A text of at most a number of code points, or of a single line. -/
def Text.IsBounded (bound : Int) (t : Text) : Prop :=
  (t.length : Int) ≤ bound ∨ Glyph.newline ∉ t

/-! ## Packing -/

/-- A run of a single line, or of lines that stay within the bound when each is counted with one
line feed. -/
def IsPacked (bound : Int) (run : List Text) : Prop :=
  run.length = 1 ∨ ((Text.joinLines run).length : Int) < bound

theorem flatten_packFrom (bound : Int) (run : List Text) (size : Nat) (ls : List Text) :
    (packFrom bound run size ls).flatten = run ++ ls := by
  induction ls generalizing run size with
  | nil => simp [packFrom]
  | cons l rest ih =>
    rw [packFrom]
    split
    · rw [List.flatten_cons, ih, List.singleton_append]
    · rw [ih, List.append_assoc, List.singleton_append]

theorem flatten_packLines (bound : Int) (ls : List Text) : (packLines bound ls).flatten = ls := by
  cases ls with
  | nil => rfl
  | cons l rest => exact flatten_packFrom bound [l] (l.length + 1) rest

/-- The size of the open run counts one line feed for each of its lines, so it is one more than
the length of the joined lines; an extended run is the one that has just been measured. -/
theorem isPacked_of_mem_packFrom {bound : Int} {run : List Text} {size : Nat} {ls : List Text}
    (hne : run ≠ []) (hsize : size = (Text.joinLines run).length + 1) (hrun : IsPacked bound run) :
    ∀ r ∈ packFrom bound run size ls, IsPacked bound r := by
  induction ls generalizing run size with
  | nil =>
    intro r hr
    rw [packFrom, List.mem_singleton] at hr
    rwa [hr]
  | cons l rest ih =>
    intro r hr
    rw [packFrom] at hr
    split at hr
    · rcases List.mem_cons.1 hr with rfl | hr
      · exact hrun
      · exact ih (by simp) (by simp) (Or.inl rfl) r hr
    · rename_i hfits
      have hlen := Text.length_joinLines_concat hne l
      refine ih (by simp) (by omega) (Or.inr ?_) r hr
      omega

theorem isPacked_of_mem_packLines {bound : Int} {ls run : List Text}
    (h : run ∈ packLines bound ls) : IsPacked bound run := by
  cases ls with
  | nil => simp [packLines] at h
  | cons l rest => exact isPacked_of_mem_packFrom (by simp) (by simp) (Or.inl rfl) run h

/-- The joined lines of a packed run are bounded. -/
theorem IsPacked.isBounded {bound : Int} {run : List Text} (h : IsPacked bound run)
    (hlines : ∀ l ∈ run, Glyph.newline ∉ l) : (Text.joinLines run).IsBounded bound := by
  rcases h with h | h
  · obtain ⟨l, rfl⟩ := List.length_eq_one_iff.1 h
    rw [Text.joinLines_singleton]
    exact Or.inr (hlines l (by simp))
  · exact Or.inl (Int.le_of_lt h)

/-! ## Chunks -/

namespace Entity

theorem mem_chunksFrom {e c : Entity Text} {total number start : Nat} {runs : List (List Text)}
    (h : c ∈ e.chunksFrom total number (placeRuns start runs)) :
    ∃ run ∈ runs, c.snippet = Text.joinLines run ∧ c.filePath = e.filePath := by
  induction runs generalizing number start with
  | nil => simp [placeRuns, chunksFrom] at h
  | cons run rest ih =>
    rw [placeRuns, chunksFrom] at h
    rcases List.mem_cons.1 h with rfl | h
    · exact ⟨run, by simp, rfl, rfl⟩
    · obtain ⟨r, hr, hc⟩ := ih h
      exact ⟨r, List.mem_cons_of_mem _ hr, hc⟩

/-- A chunk holds the lines of one run, and stays in the file of the entity. -/
theorem mem_chunks {e c : Entity Text} {runs : List (List Text)} (h : c ∈ e.chunks runs) :
    ∃ run ∈ runs, c.snippet = Text.joinLines run ∧ c.filePath = e.filePath :=
  mem_chunksFrom h

theorem filePath_of_mem_split {e c : Entity Text} {bound : Option Int} (h : c ∈ e.split bound) :
    c.filePath = e.filePath := by
  cases bound with
  | none => rw [List.mem_singleton.1 h]
  | some b =>
    rw [split] at h
    split at h
    · rw [List.mem_singleton.1 h]
    · obtain ⟨_, _, _, hpath⟩ := mem_chunks h
      exact hpath

/-- What an entity is split into stays within a positive bound, single lines apart. -/
theorem isBounded_of_mem_split {e c : Entity Text} {bound : Int} (hb : 1 ≤ bound)
    (h : c ∈ e.split (some bound)) : c.snippet.IsBounded bound := by
  rw [split] at h
  split at h
  · rename_i hfits
    rw [List.mem_singleton.1 h]
    simp only [fits, Bool.or_eq_true, beq_iff_eq, decide_eq_true_eq] at hfits
    exact Or.inl (by omega)
  · obtain ⟨run, hrun, hsnippet, _⟩ := mem_chunks h
    rw [hsnippet]
    refine (isPacked_of_mem_packLines hrun).isBounded fun l hl => ?_
    have hmem : l ∈ (packLines bound e.snippet.lines).flatten := List.mem_flatten_of_mem hrun hl
    rw [flatten_packLines] at hmem
    exact Text.newline_notMem_of_mem_lines hmem

end Entity

end CodeCatalog
