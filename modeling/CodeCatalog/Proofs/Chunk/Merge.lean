import CodeCatalog.Proofs.Chunk.File
import CodeCatalog.Proofs.Chunk.Group
import Mathlib.Data.List.Forall2
set_option autoImplicit false

/-!
# What merging keeps

Merging cuts the entities of each file, in line order, into groups and puts one entity in the
place of each group.  Nothing is lost, repeated or moved: the groups of a file put together its
entities again, and a group's entity joins the texts of its members.
-/

namespace CodeCatalog

open Entity (merge?)

/-! ## The entity of a group -/

namespace Entity

/-- What a group becomes: a single member is kept as it is, and several are folded into an entity
that joins their signatures and their snippets as lines. -/
inductive Becomes : List (Entity Text) → Entity Text → Prop where
  | kept (e : Entity Text) : Becomes [e] e
  | folded {group : List (Entity Text)} {e : Entity Text} (several : 2 ≤ group.length)
      (signature : e.signature = Text.joinLines (group.map Entity.signature))
      (snippet : e.snippet = Text.joinLines (group.map Entity.snippet)) : Becomes group e

theorem merge?_singleton (e : Entity Text) : merge? [e] = some e := rfl

theorem merge?_cons_cons (first second : Entity Text) (rest : List (Entity Text)) :
    merge? (first :: second :: rest) =
      some (first.fold (second :: rest) ((second :: rest).getLastD first)) := rfl

theorem exists_merge?_eq_some {group : List (Entity Text)} (h : group ≠ []) :
    ∃ e, merge? group = some e := by
  match group, h with
  | [e], _ => exact ⟨e, rfl⟩
  | e :: d :: rest, _ => exact ⟨_, rfl⟩

theorem becomes_of_merge? {group : List (Entity Text)} {e : Entity Text}
    (h : merge? group = some e) : Becomes group e := by
  match group, h with
  | [d], h =>
    rw [merge?_singleton, Option.some.injEq] at h
    exact h ▸ Becomes.kept d
  | first :: second :: rest, h =>
    rw [merge?_cons_cons, Option.some.injEq] at h
    subst h
    exact Becomes.folded (by simp) rfl rfl

/-- The snippet of a group's entity joins the snippets of the members. -/
theorem Becomes.snippet {group : List (Entity Text)} {e : Entity Text} (h : Becomes group e) :
    e.snippet = Text.joinLines (group.map Entity.snippet) := by
  cases h with
  | kept => simp
  | folded _ _ hsnippet => exact hsnippet

theorem snippet_of_merge? {group : List (Entity Text)} {e : Entity Text}
    (h : merge? group = some e) : e.snippet = Text.joinLines (group.map Entity.snippet) :=
  (becomes_of_merge? h).snippet

theorem filePath_of_merge? {first e : Entity Text} {more : List (Entity Text)}
    (h : merge? (first :: more) = some e) : e.filePath = first.filePath := by
  cases more with
  | nil => rw [Option.some.inj h]
  | cons second rest =>
    rw [merge?_cons_cons, Option.some.injEq] at h
    subst h
    rfl

/-- A group's entity has the first line and the line of the first member, and the last line of
the last member. -/
theorem lines_of_merge? {first e : Entity Text} {more : List (Entity Text)}
    (h : merge? (first :: more) = some e) :
    e.line = first.line ∧ e.lineFrom = first.lineFrom ∧
      e.lineTo = (more.getLastD first).lineTo := by
  cases more with
  | nil =>
    rw [Option.some.inj h]
    exact ⟨rfl, rfl, rfl⟩
  | cons second rest =>
    rw [merge?_cons_cons, Option.some.injEq] at h
    subst h
    exact ⟨rfl, rfl, rfl⟩

end Entity

/-- Each of several groups has its entity. -/
theorem forall₂_merge? {groups : List (List (Entity Text))} (h : [] ∉ groups) :
    List.Forall₂ (fun group e => merge? group = some e) groups (groups.filterMap merge?) := by
  induction groups with
  | nil => exact List.Forall₂.nil
  | cons group rest ih =>
    rw [List.mem_cons, not_or] at h
    obtain ⟨e, he⟩ := Entity.exists_merge?_eq_some (Ne.symm h.1)
    rw [List.filterMap_cons_some he]
    exact List.Forall₂.cons he (ih h.2)

theorem forall₂_filterMap_merge? {groups : List (List (Entity Text))} (h : [] ∉ groups) :
    List.Forall₂ Entity.Becomes groups (groups.filterMap merge?) :=
  (forall₂_merge? h).imp fun _ _ => Entity.becomes_of_merge?

/-! ## The groups of a merge -/

namespace Gathering

/-- The groups of all files. -/
def fileGroups (g : Gathering) (es : List (Entity Text)) : List (List (Entity Text)) :=
  (perFile es).flatMap g.groups

theorem mergeAll_eq_filterMap (g : Gathering) (es : List (Entity Text)) :
    g.mergeAll es = (g.fileGroups es).filterMap merge? := by
  rw [mergeAll, fileGroups, List.filterMap_flatMap]

/-- A single entity is left alone. -/
theorem mergeAll_singleton (g : Gathering) (e : Entity Text) : g.mergeAll [e] = [e] := by
  have hfile : inFile [e] e.filePath = [e] := by
    rw [inFile, List.filter_cons_of_pos (by simp), List.filter_nil, List.mergeSort_singleton]
  rw [mergeAll, perFile_eq]
  simp [Text.distinct, hfile, groups, groupsFrom, merge?]

end Gathering

/-- An entity of a merge, with the group in whose place it stands. -/
def MergedFrom (level : Granularity) (bound : Option Int) (es group : List (Entity Text))
    (e : Entity Text) : Prop :=
  group ∈ (Gathering.ofLevel level bound).fileGroups es ∧ merge? group = some e

theorem mem_mergeEntities_iff {level : Granularity} {bound : Option Int}
    {es : List (Entity Text)} {e : Entity Text} :
    e ∈ mergeEntities level bound es ↔ ∃ group, MergedFrom level bound es group e := by
  rw [mergeEntities, Gathering.mergeAll_eq_filterMap, List.mem_filterMap]
  rfl

namespace MergedFrom

variable {level : Granularity} {bound : Option Int} {es group : List (Entity Text)}
  {e : Entity Text}

/-- A group stands in one of the files. -/
theorem exists_path (h : MergedFrom level bound es group e) :
    ∃ path, group ∈ (Gathering.ofLevel level bound).groups (inFile es path) := by
  obtain ⟨file, hfile, hgroup⟩ := List.mem_flatMap.1 h.1
  rw [perFile_eq] at hfile
  obtain ⟨path, _, rfl⟩ := List.mem_map.1 hfile
  exact ⟨path, hgroup⟩

theorem isGroup (h : MergedFrom level bound es group e) :
    (Gathering.ofLevel level bound).IsGroup group := by
  obtain ⟨_, hgroup⟩ := h.exists_path
  exact Gathering.isGroup_of_mem_groups hgroup

theorem mem_of_mem (h : MergedFrom level bound es group e) {c : Entity Text} (hc : c ∈ group) :
    c ∈ es := by
  obtain ⟨_, hgroup⟩ := h.exists_path
  exact (mem_inFile.1 (Gathering.mem_of_mem_groups hgroup hc)).1

/-- What holds of the neighbours in a file, in line order, holds of those in a group. -/
theorem pairwise (h : MergedFrom level bound es group e) {r : Entity Text → Entity Text → Prop}
    (hr : ∀ path, (inFile es path).Pairwise r) : group.Pairwise r := by
  obtain ⟨path, hgroup⟩ := h.exists_path
  have hsub := List.sublist_flatten_of_mem hgroup
  rw [Gathering.flatten_groups] at hsub
  exact (hr path).sublist hsub

end MergedFrom

/-! ## Cuts -/

/-- What a merge makes of one file: its entities in line order are cut into groups, each group
becomes one entity of the same file, and the fine level joins runs of imports, of constants and
of variables only. -/
structure IsCut (level : Granularity) (es : List (Entity Text)) (path : Text)
    (groups : List (List (Entity Text))) (merged : List (Entity Text)) : Prop where
  inOrder : InLineOrder (es.filter fun e => e.filePath == path) groups.flatten
  nonempty : [] ∉ groups
  becomes : List.Forall₂ Entity.Becomes groups merged
  samePath : ∀ e ∈ merged, e.filePath = path
  fine : level = .fine → ∀ group ∈ groups, 2 ≤ group.length →
    ∃ kind, (kind = Kind.importItem ∨ kind = Kind.constant ∨ kind = Kind.variableBinding) ∧
      ∀ e ∈ group, e.kind = kind

theorem samePath_of_mem_groups {g : Gathering} {es : List (Entity Text)} {path : Text}
    {e : Entity Text} (h : e ∈ (g.groups (inFile es path)).filterMap merge?) :
    e.filePath = path := by
  obtain ⟨group, hgroup, he⟩ := List.mem_filterMap.1 h
  match group, hgroup, he with
  | first :: more, hgroup, he =>
    rw [Entity.filePath_of_merge? he]
    exact (mem_inFile.1 (Gathering.mem_of_mem_groups hgroup List.mem_cons_self)).2

theorem isCut_groups (level : Granularity) (bound : Option Int) (es : List (Entity Text))
    (path : Text) :
    IsCut level es path ((Gathering.ofLevel level bound).groups (inFile es path))
      (((Gathering.ofLevel level bound).groups (inFile es path)).filterMap merge?) where
  inOrder := by
    rw [Gathering.flatten_groups]
    exact inLineOrder_inFile es path
  nonempty hnil := (Gathering.isGroup_of_mem_groups hnil).ne_nil rfl
  becomes := forall₂_filterMap_merge? fun hnil => (Gathering.isGroup_of_mem_groups hnil).ne_nil rfl
  samePath _ he := samePath_of_mem_groups he
  fine hlevel group hgroup hlen := by
    subst hlevel
    obtain ⟨kind, hkind, hall⟩ := (Gathering.isGroup_of_mem_groups hgroup).kind_of_fine hlen
    exact ⟨kind, Kind.isFine_iff.1 hkind, hall⟩

/-- Merging loses, repeats and reorders nothing within a file: for each file, in the order in
which they are first seen, it puts one entity in the place of each group of a cut. -/
theorem mergeEntities_isCut (level : Granularity) (bound : Option Int)
    (es : List (Entity Text)) :
    ∃ (paths : List Text) (merged : List (List (Entity Text))),
      Text.IsFirstSeen (es.map Entity.filePath) paths ∧
        mergeEntities level bound es = merged.flatten ∧
        List.Forall₂ (fun path out => ∃ groups, IsCut level es path groups out) paths merged := by
  refine ⟨Text.distinct (es.map Entity.filePath),
    (Text.distinct (es.map Entity.filePath)).map fun path =>
      ((Gathering.ofLevel level bound).groups (inFile es path)).filterMap merge?,
    Text.isFirstSeen_distinct _, ?_, ?_⟩
  · rw [mergeEntities, Gathering.mergeAll, perFile_eq, List.flatMap_map, List.flatMap_def]
  · rw [List.forall₂_map_right_iff, List.forall₂_same]
    intro path _
    exact ⟨_, isCut_groups level bound es path⟩

end CodeCatalog
