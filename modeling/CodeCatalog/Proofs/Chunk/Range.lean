import CodeCatalog.Proofs.Chunk.Merge
set_option autoImplicit false

/-!
# The range of lines of a merged entity

A merged entity starts where the first member of its group starts, and ends where the last one
ends.  Members come in the order of their first lines, so no member starts before that range.  But
a member in which later ones are nested may end after it, and then even the line of the merged
entity may lie behind its end.  The conditions below say exactly when neither happens.
-/

namespace CodeCatalog

open Entity (merge?)

/-- The range of lines of an entity contains the ranges of the members of a group. -/
def Entity.Covers (e : Entity Text) (group : List (Entity Text)) : Prop :=
  ∀ c ∈ group, e.lineFrom ≤ c.lineFrom ∧ c.lineTo ≤ e.lineTo

/-- No member of a group ends after the last one. -/
def LastEndsLast (group : List (Entity Text)) : Prop :=
  ∀ last ∈ group.getLast?, ∀ c ∈ group, c.lineTo ≤ last.lineTo

/-- The last member of a group does not end before the line of the first one. -/
def ReachesFirstLine (group : List (Entity Text)) : Prop :=
  ∀ first ∈ group.head?, ∀ last ∈ group.getLast?, first.line ≤ last.lineTo

theorem mem_getLast?_cons {first last : Entity Text} {more : List (Entity Text)} :
    last ∈ (first :: more).getLast? ↔ more.getLastD first = last := by
  rw [List.getLast?_cons, Option.mem_some_iff, List.getLastD_eq_getLast?]

/-- The start of the range is never the trouble: a group is in line order. -/
theorem covers_iff_lastEndsLast {group : List (Entity Text)} {e : Entity Text}
    (hordered : group.Pairwise fun a b => a.lineFrom ≤ b.lineFrom) (h : merge? group = some e) :
    e.Covers group ↔ LastEndsLast group := by
  match group, h with
  | first :: more, h =>
    obtain ⟨_, hfrom, hto⟩ := Entity.lines_of_merge? h
    have hfirst : ∀ c ∈ first :: more, first.lineFrom ≤ c.lineFrom := by
      intro c hc
      rcases List.mem_cons.1 hc with rfl | hc
      · exact Int.le_refl _
      · exact List.rel_of_pairwise_cons hordered hc
    constructor
    · intro hcovers last hlast c hc
      rw [← mem_getLast?_cons.1 hlast, ← hto]
      exact (hcovers c hc).2
    · intro hlast c hc
      rw [hfrom, hto]
      exact ⟨hfirst c hc, hlast _ (mem_getLast?_cons.2 rfl) c hc⟩

theorem linesOrdered_iff_reachesFirstLine {group : List (Entity Text)} {e : Entity Text}
    (hmembers : ∀ c ∈ group, c.LinesOrdered) (h : merge? group = some e) :
    e.LinesOrdered ↔ ReachesFirstLine group := by
  match group, h with
  | first :: more, h =>
    obtain ⟨hline, hfrom, hto⟩ := Entity.lines_of_merge? h
    have hfirst : first.LinesOrdered := hmembers first List.mem_cons_self
    constructor
    · intro he d hd last hlast
      obtain rfl : first = d := Option.some.inj hd
      rw [← mem_getLast?_cons.1 hlast, ← hto, ← hline]
      exact he.2
    · intro hreach
      refine ⟨?_, ?_⟩
      · rw [hfrom, hline]
        exact hfirst.1
      · rw [hline, hto]
        exact hreach first rfl _ (mem_getLast?_cons.2 rfl)

/-- Where no entity ends after a later one, the last of a group ends last. -/
theorem lastEndsLast_of_pairwise {group : List (Entity Text)}
    (h : group.Pairwise fun a b => a.lineTo ≤ b.lineTo) : LastEndsLast group := by
  intro last hlast c hc
  obtain ⟨before, rfl⟩ := List.getLast?_eq_some_iff.1 hlast
  rcases List.mem_append.1 hc with hc | hc
  · exact (List.pairwise_append.1 h).2.2 c hc last (by simp)
  · obtain rfl := List.mem_singleton.1 hc
    exact Int.le_refl _

theorem LastEndsLast.reachesFirstLine {group : List (Entity Text)} (h : LastEndsLast group)
    (hmembers : ∀ c ∈ group, c.LinesOrdered) : ReachesFirstLine group := by
  intro first hfirst last hlast
  have hmem : first ∈ group := List.mem_of_mem_head? hfirst
  exact Int.le_trans (hmembers first hmem).2 (h last hlast first hmem)

/-- The ranges of merged entities contain those of their members exactly if the last member of
each group ends last.  If the lines of all entities lie in their ranges, then so do the lines of
the merged ones exactly if each group reaches the line of its first member.  Both are the case
where, in the line order of each file, no entity ends after a later one. -/
theorem mergeEntities_ranges_iff (level : Granularity) (bound : Option Int)
    (es : List (Entity Text)) :
    ((∀ group e, MergedFrom level bound es group e → e.Covers group) ↔
      ∀ group e, MergedFrom level bound es group e → LastEndsLast group) ∧
    ((∀ e ∈ es, e.LinesOrdered) →
      ((∀ e ∈ mergeEntities level bound es, e.LinesOrdered) ↔
        ∀ group e, MergedFrom level bound es group e → ReachesFirstLine group)) ∧
    ((∀ path, (inFile es path).Pairwise fun a b => a.lineTo ≤ b.lineTo) →
      (∀ group e, MergedFrom level bound es group e → e.Covers group) ∧
      ((∀ e ∈ es, e.LinesOrdered) → ∀ e ∈ mergeEntities level bound es, e.LinesOrdered)) := by
  have hcovers : ∀ group e, MergedFrom level bound es group e →
      (e.Covers group ↔ LastEndsLast group) := by
    intro group e h
    have hordered := h.pairwise fun path => (inLineOrder_inFile es path).ordered
    exact covers_iff_lastEndsLast hordered h.2
  have hlines : (∀ e ∈ es, e.LinesOrdered) → ∀ group e, MergedFrom level bound es group e →
      (e.LinesOrdered ↔ ReachesFirstLine group) := by
    intro hes group e h
    exact linesOrdered_iff_reachesFirstLine (fun c hc => hes c (h.mem_of_mem hc)) h.2
  refine ⟨?_, fun hes => ?_, fun hends => ⟨fun group e h => ?_, fun hes e he => ?_⟩⟩
  · constructor
    · intro hall group e h
      exact (hcovers group e h).1 (hall group e h)
    · intro hall group e h
      exact (hcovers group e h).2 (hall group e h)
  · constructor
    · intro hall group e h
      exact (hlines hes group e h).1 (hall e (mem_mergeEntities_iff.2 ⟨group, h⟩))
    · intro hall e he
      obtain ⟨group, h⟩ := mem_mergeEntities_iff.1 he
      exact (hlines hes group e h).2 (hall group e h)
  · exact (hcovers group e h).2 (lastEndsLast_of_pairwise (h.pairwise hends))
  · obtain ⟨group, h⟩ := mem_mergeEntities_iff.1 he
    have hmembers : ∀ c ∈ group, c.LinesOrdered := fun c hc => hes c (h.mem_of_mem hc)
    have hlast := lastEndsLast_of_pairwise (h.pairwise hends)
    exact (hlines hes group e h).2 (hlast.reachesFirstLine hmembers)

/-- A type that is named behind its body. -/
def typeNamedLast : Entity Text where
  name := "Store"
  signature := "record"
  kind := Kind.struct
  docstring := none
  line := 5
  lineFrom := 1
  lineTo := 5
  context := ⟨"store.ml", "store.ml", "record\n get()\n end\n\nend Store", some "store", none⟩
  embedding := none

/-- A method in the body of the type. -/
def methodInBody : Entity Text where
  name := "get"
  signature := "get()"
  kind := Kind.method
  docstring := none
  line := 2
  lineFrom := 2
  lineTo := 3
  context := ⟨"store.ml", "store.ml", "get()\n end", some "store", some "Store"⟩
  embedding := none

theorem perFile_nested :
    perFile [typeNamedLast, methodInBody] = [[typeNamedLast, methodInBody]] := by
  have hpath : ∀ e ∈ [typeNamedLast, methodInBody], e.filePath = typeNamedLast.filePath := by
    intro e he
    rcases List.mem_pair.1 he with rfl | rfl <;> rfl
  exact perFile_of_sorted (by simp) hpath (by simp [typeNamedLast, methodInBody])

/-- The range of a type and a method in it ends with the method: it does not contain the range of
the type, and the line of the merged entity lies behind it. -/
theorem range_of_nested_member :
    typeNamedLast.LinesOrdered ∧ methodInBody.LinesOrdered ∧
      ∃ e, mergeEntities .coarse none [typeNamedLast, methodInBody] = [e] ∧
        e.lineTo < typeNamedLast.lineTo ∧ ¬ e.LinesOrdered := by
  refine ⟨by decide, by decide, typeNamedLast.fold [methodInBody] methodInBody, ?_, ?_, ?_⟩
  · rw [mergeEntities, Gathering.mergeAll, perFile_nested]
    rfl
  · decide
  · decide

end CodeCatalog
