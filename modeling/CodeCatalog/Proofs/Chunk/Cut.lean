import CodeCatalog.Proofs.Chunk.Split
set_option autoImplicit false

/-!
# Cutting an entity

The chunks of an entity hold consecutive runs of its lines, so joining their snippets gives back
the snippet.  They are numbered from one, keep what the entity is and where it stands, and give up
its embedding.  Their ranges of lines count from the first line of the entity and stop at the last
one, so they lie inside its range and never go backwards, whatever the lines of the snippet are.
-/

namespace CodeCatalog

/-! ## Runs -/

/-- Lines joined run by run are the joined lines. -/
theorem Text.joinLines_flatten {runs : List (List Text)} (hruns : ∀ run ∈ runs, run ≠ []) :
    joinLines (runs.map joinLines) = joinLines runs.flatten := by
  induction runs with
  | nil => rfl
  | cons run rest ih =>
    obtain ⟨hrun, hrest⟩ := List.forall_mem_cons.1 hruns
    cases rest with
    | nil => simp
    | cons next others =>
      have hflatten : (next :: others).flatten ≠ [] := by
        simp [(List.forall_mem_cons.1 hrest).1]
      calc joinLines ((run :: next :: others).map joinLines)
          = joinLines run ++ [Glyph.newline] ++ joinLines ((next :: others).map joinLines) :=
            joinWith_cons (by simp) _
        _ = joinLines run ++ [Glyph.newline] ++ joinLines (next :: others).flatten := by
            rw [ih hrest]
        _ = joinLines (run ++ (next :: others).flatten) := (joinWith_append hrun hflatten).symm

/-- The lines of a text put together are the text. -/
theorem Text.joinLines_lines (t : Text) : joinLines t.lines = t :=
  List.intercalate_splitOn Glyph.newline

theorem ne_nil_of_mem_packFrom {bound : Int} {run : List Text} {size : Nat} {ls : List Text}
    (hrun : run ≠ []) : ∀ r ∈ packFrom bound run size ls, r ≠ [] := by
  induction ls generalizing run size with
  | nil =>
    intro r hr
    rw [packFrom, List.mem_singleton] at hr
    rwa [hr]
  | cons l rest ih =>
    intro r hr
    rw [packFrom] at hr
    split at hr
    · rcases List.mem_cons.1 hr with rfl | hr
      · exact hrun
      · exact ih (by simp) r hr
    · exact ih (by simp) r hr

theorem ne_nil_of_mem_packLines {bound : Int} {ls run : List Text}
    (h : run ∈ packLines bound ls) : run ≠ [] := by
  cases ls with
  | nil => simp [packLines] at h
  | cons l rest => exact ne_nil_of_mem_packFrom (by simp) run h

namespace Entity

/-! ## Chunks one by one -/

/-- The name of the chunk of a number among a total. -/
def chunkName (e : Entity Text) (total number : Nat) : Text :=
  e.name ++ " [chunk " ++ (Text.ofNat number ++ "/" ++ Text.ofNat total) ++ "]"

/-- What a chunk keeps of its entity: all but the embedding, the snippet, the lines and what it is
called. -/
structure IsPartOf (c e : Entity Text) : Prop where
  kind : c.kind = e.kind
  docstring : c.docstring = e.docstring
  filePath : c.context.filePath = e.context.filePath
  fileName : c.context.fileName = e.context.fileName
  moduleName : c.context.moduleName = e.context.moduleName
  enclosingType : c.context.enclosingType = e.context.enclosingType
  embedding : c.embedding = none

/-- The line of an entity lies in its range, and the range in that of another one. -/
structure LinesWithin (c e : Entity Text) : Prop where
  ordered : c.LinesOrdered
  lineFrom_le : e.lineFrom ≤ c.lineFrom
  lineTo_le : c.lineTo ≤ e.lineTo

variable {e c : Entity Text} {total number start : Nat} {runs : List (List Text)}

theorem chunk_isPartOf (run : PlacedRun) : (e.chunk total number run).IsPartOf e :=
  ⟨rfl, rfl, rfl, rfl, rfl, rfl, rfl⟩

/-- The lines of a chunk are clamped to the range of its entity, so this holds of any run that is
not empty. -/
theorem chunk_linesWithin (he : e.LinesOrdered) {run : PlacedRun} (hrun : run.lines ≠ []) :
    (e.chunk total number run).LinesWithin e := by
  obtain ⟨hfrom, hto⟩ := he
  have hlen : 0 < run.lines.length := List.length_pos_iff.2 hrun
  refine ⟨⟨?_, ?_⟩, ?_, ?_⟩ <;> simp only [chunk] <;> omega

/-! ## All chunks -/

theorem map_snippet_chunksFrom :
    (e.chunksFrom total number (placeRuns start runs)).map snippet = runs.map Text.joinLines := by
  induction runs generalizing number start with
  | nil => rfl
  | cons run rest ih =>
    simp only [placeRuns, chunksFrom, List.map_cons, ih]
    rfl

theorem length_chunks (e : Entity Text) (runs : List (List Text)) :
    (e.chunks runs).length = runs.length := by
  have hsnippets : (e.chunks runs).map snippet = runs.map Text.joinLines := map_snippet_chunksFrom
  simpa using congrArg List.length hsnippets

theorem map_name_chunksFrom :
    (e.chunksFrom total number (placeRuns start runs)).map name =
      (List.range' (number + 1) runs.length).map (e.chunkName total) := by
  induction runs generalizing number start with
  | nil => rfl
  | cons run rest ih =>
    simp only [placeRuns, chunksFrom, List.map_cons, ih, List.length_cons, List.range'_succ]
    rfl

theorem exists_chunk_of_mem_chunksFrom
    (hc : c ∈ e.chunksFrom total number (placeRuns start runs)) :
    ∃ i run, run.lines ∈ runs ∧ start ≤ run.start ∧ c = e.chunk total i run := by
  induction runs generalizing number start with
  | nil => simp [placeRuns, chunksFrom] at hc
  | cons lines rest ih =>
    rw [placeRuns, chunksFrom] at hc
    rcases List.mem_cons.1 hc with rfl | hc
    · exact ⟨number + 1, ⟨start, lines⟩, List.mem_cons_self, Nat.le_refl start, rfl⟩
    · obtain ⟨i, run, hrun, hstart, rfl⟩ := ih hc
      exact ⟨i, run, List.mem_cons_of_mem _ hrun, by omega, rfl⟩

/-- A later chunk starts behind all lines of an earlier one, unless both are at the last line. -/
theorem pairwise_chunksFrom (hruns : ∀ run ∈ runs, run ≠ []) :
    (e.chunksFrom total number (placeRuns start runs)).Pairwise fun a b =>
      a.lineTo ≤ b.lineFrom := by
  induction runs generalizing number start with
  | nil => exact List.Pairwise.nil
  | cons lines rest ih =>
    obtain ⟨hlines, hrest⟩ := List.forall_mem_cons.1 hruns
    have hlen : 0 < lines.length := List.length_pos_iff.2 hlines
    rw [placeRuns, chunksFrom]
    refine List.pairwise_cons.2 ⟨fun b hb => ?_, ih hrest⟩
    obtain ⟨i, run, _, hstart, rfl⟩ := exists_chunk_of_mem_chunksFrom hb
    simp only [chunk]
    omega

/-! ## Splitting -/

/-- Chunks that an entity is cut into under a bound.  They hold consecutive runs of its lines, each
of a single line or of lines that stay within the bound. -/
structure IsCutInto (e : Entity Text) (bound : Int) (chunks : List (Entity Text)) : Prop where
  runs : ∃ runs : List (List Text), runs.flatten = e.snippet.lines ∧
    (∀ run ∈ runs, run ≠ [] ∧ IsPacked bound run) ∧
    chunks.map snippet = runs.map Text.joinLines
  names : chunks.map name = (List.range' 1 chunks.length).map (e.chunkName chunks.length)
  parts : ∀ c ∈ chunks, c.IsPartOf e
  lines : e.LinesOrdered →
    (∀ c ∈ chunks, c.LinesWithin e) ∧ chunks.Pairwise fun a b => a.lineTo ≤ b.lineFrom

theorem isCutInto_chunks {bound : Int} (hflatten : runs.flatten = e.snippet.lines)
    (hruns : ∀ run ∈ runs, run ≠ [] ∧ IsPacked bound run) :
    e.IsCutInto bound (e.chunks runs) := by
  have hne : ∀ run ∈ runs, run ≠ [] := fun run hrun => (hruns run hrun).1
  refine ⟨⟨runs, hflatten, hruns, map_snippet_chunksFrom⟩, ?_, fun c hc => ?_,
    fun he => ⟨fun c hc => ?_, ?_⟩⟩
  · rw [length_chunks]
    exact map_name_chunksFrom
  · obtain ⟨i, run, _, _, rfl⟩ := exists_chunk_of_mem_chunksFrom hc
    exact chunk_isPartOf run
  · obtain ⟨i, run, hrun, _, rfl⟩ := exists_chunk_of_mem_chunksFrom hc
    exact chunk_linesWithin he (hne _ hrun)
  · exact pairwise_chunksFrom hne

theorem split_of_fits {bound : Option Int} (h : e.fits bound = true) : e.split bound = [e] := by
  cases bound with
  | none => rfl
  | some b => rw [split, if_pos h]

theorem split_of_not_fits {bound : Int} (h : e.fits (some bound) = false) :
    e.split (some bound) = e.chunks (packLines bound e.snippet.lines) := by
  rw [split, if_neg (by simp [h])]

theorem isCutInto_split {bound : Int} (h : e.fits (some bound) = false) :
    e.IsCutInto bound (e.split (some bound)) := by
  rw [split_of_not_fits h]
  refine isCutInto_chunks (flatten_packLines bound _) fun run hrun => ?_
  exact ⟨ne_nil_of_mem_packLines hrun, isPacked_of_mem_packLines hrun⟩

/-- The snippets of the chunks are the snippet cut at line feeds. -/
theorem IsCutInto.joinLines_snippets {bound : Int} {chunks : List (Entity Text)}
    (h : e.IsCutInto bound chunks) : Text.joinLines (chunks.map snippet) = e.snippet := by
  obtain ⟨runs, hflatten, hruns, hsnippets⟩ := h.runs
  rw [hsnippets, Text.joinLines_flatten fun run hrun => (hruns run hrun).1, hflatten,
    Text.joinLines_lines]

/-- An entity that fits is left as it is, and any other is cut. -/
theorem split_cases (e : Entity Text) (bound : Option Int) :
    (e.fits bound = true ∧ e.split bound = [e]) ∨
      ∃ b, bound = some b ∧ e.fits bound = false ∧ e.IsCutInto b (e.split bound) := by
  cases hfits : e.fits bound with
  | true => exact Or.inl ⟨rfl, split_of_fits hfits⟩
  | false =>
    cases bound with
    | none => exact absurd hfits (by simp [fits])
    | some b => exact Or.inr ⟨b, rfl, rfl, isCutInto_split hfits⟩

theorem eq_or_isPartOf_of_mem_split {bound : Option Int} (hc : c ∈ e.split bound) :
    c = e ∨ c.IsPartOf e := by
  rcases e.split_cases bound with ⟨_, hsplit⟩ | ⟨b, _, _, hcut⟩
  · rw [hsplit, List.mem_singleton] at hc
    exact .inl hc
  · exact .inr (hcut.parts c hc)

/-- What an entity is split into stays within its lines. -/
theorem linesWithin_of_mem_split {bound : Option Int} (he : e.LinesOrdered)
    (hc : c ∈ e.split bound) : c.LinesWithin e := by
  rcases e.split_cases bound with ⟨_, hsplit⟩ | ⟨b, _, _, hcut⟩
  · rw [hsplit, List.mem_singleton] at hc
    rw [hc]
    exact ⟨he, Int.le_refl _, Int.le_refl _⟩
  · exact (hcut.lines he).1 c hc

/-- Splitting loses no text: the snippets put together as lines are the snippet.  An entity that
fits is left as it is; any other is cut into numbered chunks of whole lines that keep what it is
and whose ranges follow one another inside its range. -/
theorem joinLines_split_and_isCutInto (e : Entity Text) (bound : Option Int) :
    Text.joinLines ((e.split bound).map snippet) = e.snippet ∧
      ((e.fits bound = true ∧ e.split bound = [e]) ∨
        ∃ b, bound = some b ∧ e.fits bound = false ∧ e.IsCutInto b (e.split bound)) := by
  refine ⟨?_, e.split_cases bound⟩
  rcases e.split_cases bound with ⟨_, hsplit⟩ | ⟨b, _, _, hcut⟩
  · rw [hsplit, List.map_singleton, Text.joinLines_singleton]
  · exact hcut.joinLines_snippets

end Entity

end CodeCatalog
