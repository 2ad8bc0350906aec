import Mathlib.Data.List.Chain
import CodeCatalog.Proofs.Chunk.Closed
import CodeCatalog.Proofs.Chunk.Cut
set_option autoImplicit false

/-!
# Packed lines

Lines are packed into chunks as entities are gathered into groups that have these lines as their
snippets.  But packing counts a line feed for each line, where only those between neighbours are
joined, so within a bound it does what gathering does within one code point less.

So the cuts between chunks are forced, by the bound less one, and those by the bound itself are the
same only where one more code point changes nothing.  And since gathering makes the fewest groups, a
greater bound never makes more chunks.
-/

namespace CodeCatalog

open Gathering (any)

/-! ## Lines as entities -/

namespace Entity

/-- An entity with another snippet. -/
def withSnippet (e : Entity Text) (t : Text) : Entity Text :=
  { e with context := { e.context with snippet := t } }

@[simp] theorem snippet_withSnippet (e : Entity Text) (t : Text) :
    (e.withSnippet t).snippet = t := rfl

@[simp] theorem snippet_comp_withSnippet (e : Entity Text) : snippet ∘ e.withSnippet = id := rfl

end Entity

theorem packFrom_eq_groupsFrom (bound : Int) (e : Entity Text) (l : Text) (run ls : List Text)
    (size : Nat) :
    packFrom bound (l :: run) (size + 1) ls =
      ((any (some (bound - 1))).groupsFrom (e.withSnippet l) (run.map e.withSnippet) size
        (ls.map e.withSnippet)).map (List.map Entity.snippet) := by
  induction ls generalizing l run size with
  | nil => simp [packFrom, Gathering.groupsFrom]
  | cons next rest ih =>
    have hroom : ((any (some (bound - 1))).joins (e.withSnippet l) (e.withSnippet next) &&
        (any (some (bound - 1))).fits (size + (e.withSnippet next).snippet.length + 1)) = true ↔
          ¬ bound < ((size + 1 + (next.length + 1) : Nat) : Int) := by
      rw [Gathering.fits, any, Bool.true_and, decide_eq_true_eq, Entity.snippet_withSnippet]
      omega
    rw [packFrom, List.map_cons, Gathering.groupsFrom]
    by_cases hlong : bound < ((size + 1 + (next.length + 1) : Nat) : Int)
    · rw [if_pos hlong, if_neg (mt hroom.1 (not_not.2 hlong)), ih, List.map_cons]
      simp
    · have hsize : size + 1 + (next.length + 1) = size + next.length + 1 + 1 := by omega
      rw [if_neg hlong, if_pos (hroom.2 hlong), List.cons_append, hsize, ih, List.map_append]
      rfl

/-- Packing lines is gathering the entities that have them as their snippets, with one code point
less to fill. -/
theorem packLines_eq_groups (bound : Int) (e : Entity Text) (ls : List Text) :
    packLines bound ls =
      ((any (some (bound - 1))).groups (ls.map e.withSnippet)).map (List.map Entity.snippet) := by
  cases ls with
  | nil => rfl
  | cons l rest => exact packFrom_eq_groupsFrom bound e l [] rest l.length

/-! ## Full runs -/

/-- There is no room within a bound for the first line of another run. -/
def IsFullBefore (bound : Int) (run next : List Text) : Prop :=
  ∀ l ∈ next.head?, bound < ((Text.joinLines run).length + l.length + 1 : Nat)

theorem closedBefore_any_iff {bound : Int} {group next : List (Entity Text)} (hne : group ≠ []) :
    (any (some bound)).ClosedBefore group next ↔
      IsFullBefore bound (group.map Entity.snippet) (next.map Entity.snippet) := by
  obtain ⟨first, more, rfl⟩ := List.exists_cons_of_ne_nil hne
  have hfits : ∀ size : Nat, (any (some bound)).fits size = false ↔ bound < (size : Int) := by
    intro size
    rw [Gathering.fits, any, decide_eq_false_iff_not, Int.not_le]
  constructor
  · intro h l hl
    rw [List.head?_map] at hl
    obtain ⟨second, hsecond, rfl⟩ := Option.map_eq_some_iff.1 hl
    exact (hfits _).1 (h first rfl second hsecond rfl)
  · intro h d _ second hsecond _
    refine (hfits _).2 (h second.snippet ?_)
    rw [List.head?_map]
    exact Option.mem_map_of_mem _ hsecond

theorem isChain_map_snippet_iff {bound : Int} {groups : List (List (Entity Text))}
    (hne : ∀ group ∈ groups, group ≠ []) :
    (groups.map (List.map Entity.snippet)).IsChain (IsFullBefore bound) ↔
      groups.IsChain (any (some bound)).ClosedBefore := by
  rw [List.isChain_map]
  exact List.IsChain.iff_of_mem_imp fun group _ hgroup _ =>
    (closedBefore_any_iff (hne group hgroup)).symm

/-- A run is closed only where the bound less one leaves no room. -/
theorem isChain_packLines (e : Entity Text) (bound : Int) (ls : List Text) :
    (packLines bound ls).IsChain (IsFullBefore (bound - 1)) := by
  rw [packLines_eq_groups bound e, isChain_map_snippet_iff]
  · exact Gathering.isChain_groups _ _
  · exact fun group hgroup => (Gathering.isGroup_of_mem_groups hgroup).ne_nil

/-- Runs are closed only where the bound leaves no room exactly if one code point more makes no
difference to them. -/
theorem isChain_packLines_iff (e : Entity Text) {bound : Int} {ls : List Text} :
    (packLines bound ls).IsChain (IsFullBefore bound) ↔
      packLines bound ls = packLines (bound + 1) ls := by
  have hmore : bound + 1 - 1 = bound := by omega
  constructor
  · intro h
    have hgroups : ∀ group ∈ (any (some (bound - 1))).groups (ls.map e.withSnippet),
        (any (some (bound - 1))).IsGroup group :=
      fun group hgroup => Gathering.isGroup_of_mem_groups hgroup
    have hwider : ∀ group ∈ (any (some (bound - 1))).groups (ls.map e.withSnippet),
        (any (some bound)).IsGroup group := by
      intro group hgroup
      obtain ⟨hne, hfits⟩ := Gathering.isGroup_any_iff.1 (hgroups group hgroup)
      refine Gathering.isGroup_any_iff.2 ⟨hne, fun hlen => ?_⟩
      have hwithin := Gathering.fits_any_iff.1 (hfits hlen) (bound - 1) rfl
      refine Gathering.fits_any_iff.2 fun t ht => ?_
      obtain rfl : bound = t := Option.some.inj ht
      omega
    rw [packLines_eq_groups bound e,
      isChain_map_snippet_iff fun group hgroup => (hgroups group hgroup).ne_nil] at h
    have hsame := Gathering.groups_flatten_of_isChain hwider h
    rw [Gathering.flatten_groups] at hsame
    rw [packLines_eq_groups bound e, packLines_eq_groups (bound + 1) e, hmore, hsame]
  · intro h
    have hchain := isChain_packLines e (bound + 1) ls
    rwa [hmore, ← h] at hchain

/-! ## Fewest runs -/

/-- Within a greater bound lines are packed into no more runs. -/
theorem length_packLines_le (e : Entity Text) {bound bound' : Int} (h : bound ≤ bound')
    (ls : List Text) : (packLines bound' ls).length ≤ (packLines bound ls).length := by
  rw [packLines_eq_groups bound e, packLines_eq_groups bound' e, List.length_map, List.length_map]
  have hcut : IsCutWithin (some (bound - 1)) (ls.map e.withSnippet)
      ((any (some (bound - 1))).groups (ls.map e.withSnippet)) :=
    Gathering.isCutWithin_iff.2
      ⟨Gathering.flatten_groups _ _, fun _ hgroup => Gathering.isGroup_of_mem_groups hgroup⟩
  refine (Gathering.isLeast_length_groups (some (bound' - 1)) _).2 ⟨_, ⟨?_, ?_, ?_⟩, rfl⟩
  · exact hcut.flatten
  · exact hcut.nonempty
  · intro group hgroup
    refine (hcut.allowed group hgroup).imp_right fun hwithin t ht => ?_
    obtain rfl : bound' - 1 = t := Option.some.inj ht
    have hlength := hwithin (bound - 1) rfl
    omega

/-! ## Chunks -/

namespace Text

/-- The first line of a text. -/
def firstLine (t : Text) : Text := t.lines.headD []

/-- A text has no room within a bound for the first line of another one behind a line feed. -/
def LacksRoomFor (bound : Int) (t u : Text) : Prop :=
  bound < ((t ++ Glyph.newline :: u.firstLine).length : Int)

instance (bound : Int) : DecidableRel (LacksRoomFor bound) :=
  fun _ _ => inferInstanceAs (Decidable (_ < _))

theorem isChain_map_joinLines_iff {bound : Int} {runs : List (List Text)}
    (hruns : ∀ run ∈ runs, run ≠ [] ∧ ∀ l ∈ run, Glyph.newline ∉ l) :
    (runs.map joinLines).IsChain (LacksRoomFor bound) ↔ runs.IsChain (IsFullBefore bound) := by
  rw [List.isChain_map]
  refine List.IsChain.iff_of_mem_imp fun run next _ hnext => ?_
  obtain ⟨hne, hlines⟩ := hruns next hnext
  obtain ⟨l, rest, rfl⟩ := List.exists_cons_of_ne_nil hne
  rw [LacksRoomFor, firstLine, lines_joinLines hne hlines]
  simp [IsFullBefore, Int.add_assoc]

end Text

namespace Entity

theorem map_snippet_split {e : Entity Text} {bound : Int} (h : e.fits (some bound) = false) :
    (e.split (some bound)).map snippet = (packLines bound e.snippet.lines).map Text.joinLines := by
  rw [split_of_not_fits h]
  exact map_snippet_chunksFrom

theorem isChain_map_snippet_split {e : Entity Text} {bound other : Int}
    (h : e.fits (some bound) = false) :
    ((e.split (some bound)).map snippet).IsChain (Text.LacksRoomFor other) ↔
      (packLines bound e.snippet.lines).IsChain (IsFullBefore other) := by
  rw [map_snippet_split h]
  refine Text.isChain_map_joinLines_iff fun run hrun => ⟨ne_nil_of_mem_packLines hrun, ?_⟩
  intro l hl
  have hmem : l ∈ (packLines bound e.snippet.lines).flatten := List.mem_flatten_of_mem hrun hl
  rw [flatten_packLines] at hmem
  exact Text.newline_notMem_of_mem_lines hmem

/-- The cuts between the chunks of an entity are forced by the bound less one: no chunk has room
within that for the first line of the next one.  They are forced by the bound itself exactly if the
lines are packed in the same way where there is room for one code point more. -/
theorem split_isForced_iff (e : Entity Text) {bound : Int} (h : e.fits (some bound) = false) :
    ((e.split (some bound)).map snippet).IsChain (Text.LacksRoomFor (bound - 1)) ∧
      (((e.split (some bound)).map snippet).IsChain (Text.LacksRoomFor bound) ↔
        packLines bound e.snippet.lines = packLines (bound + 1) e.snippet.lines) := by
  rw [isChain_map_snippet_split h, isChain_map_snippet_split h]
  exact ⟨isChain_packLines e bound _, isChain_packLines_iff e⟩

/-- A function of three lines, the first two of which are joined to eighteen code points. -/
def threeLines : Entity Text where
  name := "run"
  signature := "def run():"
  kind := Kind.function
  docstring := none
  line := 1
  lineFrom := 1
  lineTo := 3
  context := ⟨"tools.py", "tools.py", "def run():\n    a()\n    b()", some "tools", none⟩
  embedding := none

theorem split_isForced_iff_threeLines :
    threeLines.fits (some 17) = false ∧
      ((threeLines.split (some 17)).map snippet).IsChain (Text.LacksRoomFor 16) ∧
        (((threeLines.split (some 17)).map snippet).IsChain (Text.LacksRoomFor 17) ↔
          packLines 17 threeLines.snippet.lines = packLines 18 threeLines.snippet.lines) := by
  have hlong : threeLines.fits (some 17) = false := by decide
  exact ⟨hlong, split_isForced_iff threeLines hlong⟩

/-- The first two lines would be within a bound of eighteen code points, and are cut. -/
theorem not_isForced_threeLines :
    threeLines.fits (some 18) = false ∧
      ¬ ((threeLines.split (some 18)).map snippet).IsChain (Text.LacksRoomFor 18) := by
  have hlong : threeLines.fits (some 18) = false := by decide
  refine ⟨hlong, fun hforced => ?_⟩
  rw [map_snippet_split hlong] at hforced
  revert hforced
  decide

theorem split_ne_nil (e : Entity Text) (bound : Option Int) : e.split bound ≠ [] := by
  intro hnil
  rcases e.split_cases bound with ⟨_, hsplit⟩ | ⟨b, _, _, hcut⟩
  · rw [hnil] at hsplit
    cases hsplit
  · obtain ⟨runs, hflatten, _, hsnippets⟩ := hcut.runs
    rw [hnil, List.map_nil, eq_comm, List.map_eq_nil_iff] at hsnippets
    rw [hsnippets, List.flatten_nil] at hflatten
    exact List.splitOn_ne_nil Glyph.newline e.snippet hflatten.symm

/-- A greater bound never splits an entity into more parts. -/
theorem length_split_le (e : Entity Text) {bound bound' : Int} (hpos : 1 ≤ bound)
    (hle : bound ≤ bound') : (e.split (some bound')).length ≤ (e.split (some bound)).length := by
  cases hfits : e.fits (some bound') with
  | true =>
    rw [split_of_fits hfits]
    exact List.length_pos_iff.2 (e.split_ne_nil (some bound))
  | false =>
    have hshort : e.fits (some bound) = false := by
      simp only [fits, Bool.or_eq_false_iff, beq_eq_false_iff_ne,
        decide_eq_false_iff_not] at hfits ⊢
      omega
    rw [split_of_not_fits hfits, split_of_not_fits hshort, length_chunks, length_chunks]
    exact length_packLines_le e hle e.snippet.lines

/-- Three chunks become two. -/
theorem length_split_le_threeLines :
    (1 : Int) ≤ 12 ∧ (12 : Int) ≤ 18 ∧
      (threeLines.split (some 18)).length ≤ (threeLines.split (some 12)).length :=
  ⟨by decide, by decide, length_split_le threeLines (by decide) (by decide)⟩

end Entity

end CodeCatalog
