import CodeCatalog.Chunk.Merge
import CodeCatalog.Proofs.Text.Lines
set_option autoImplicit false

/-!
# Groups

The groups into which consecutive entities are gathered put together the entities again, and none
is empty.  Within a group the first entity may stand with each of the others, and the joined
snippets of two or more members stay within the bound.
-/

namespace CodeCatalog

theorem Kind.isFine_iff {kind : Text} : Kind.isFine kind = true ↔
    kind = Kind.importItem ∨ kind = Kind.constant ∨ kind = Kind.variableBinding := by
  simp only [isFine, Bool.or_eq_true, beq_iff_eq, or_assoc]

/-- The length of the snippets of a group, joined as lines. -/
def joinedLength (group : List (Entity Text)) : Nat :=
  (Text.joinLines (group.map Entity.snippet)).length

@[simp] theorem joinedLength_singleton (e : Entity Text) :
    joinedLength [e] = e.snippet.length := by
  simp [joinedLength]

theorem joinedLength_concat {group : List (Entity Text)} (h : group ≠ []) (e : Entity Text) :
    joinedLength (group ++ [e]) = joinedLength group + e.snippet.length + 1 := by
  have hne : group.map Entity.snippet ≠ [] := by simpa using h
  rw [joinedLength, List.map_append, List.map_singleton, Text.length_joinLines_concat hne]
  rfl

namespace Gathering

variable {g : Gathering}

/-- A group as it may be gathered. -/
def IsGroup (g : Gathering) : List (Entity Text) → Prop
  | [] => False
  | first :: more =>
    (∀ e ∈ more, g.joins first e = true) ∧
      (more ≠ [] → g.fits (joinedLength (first :: more)) = true)

theorem isGroup_singleton (g : Gathering) (e : Entity Text) : g.IsGroup [e] :=
  ⟨fun _ h => absurd h List.not_mem_nil, fun h => absurd rfl h⟩

theorem IsGroup.ne_nil {group : List (Entity Text)} (h : g.IsGroup group) : group ≠ [] := by
  rintro rfl
  exact h

/-- Two or more members are within the bound. -/
theorem IsGroup.fits {group : List (Entity Text)} (h : g.IsGroup group)
    (hlen : 2 ≤ group.length) : g.fits (joinedLength group) = true := by
  match group, h, hlen with
  | _ :: _ :: _, h, _ => exact h.2 (by simp)

/-- A group is extended by an entity that its first one may stand with, if there is room. -/
theorem IsGroup.concat {first e : Entity Text} {more : List (Entity Text)}
    (h : g.IsGroup (first :: more)) (hjoins : g.joins first e = true)
    (hfits : g.fits (joinedLength (first :: more) + e.snippet.length + 1) = true) :
    g.IsGroup (first :: (more ++ [e])) := by
  refine ⟨fun d hd => ?_, fun _ => ?_⟩
  · rcases List.mem_append.1 hd with hd | hd
    · exact h.1 d hd
    · rwa [List.mem_singleton.1 hd]
  · rwa [← List.cons_append, joinedLength_concat (by simp)]

theorem flatten_groupsFrom (g : Gathering) (first : Entity Text) (more : List (Entity Text))
    (size : Nat) (es : List (Entity Text)) :
    (g.groupsFrom first more size es).flatten = first :: (more ++ es) := by
  induction es generalizing first more size with
  | nil => simp [groupsFrom]
  | cons e rest ih =>
    simp only [groupsFrom]
    split
    · rw [ih, List.append_assoc, List.singleton_append]
    · rw [List.flatten_cons, ih, List.nil_append, List.cons_append]

/-- The groups of a list are consecutive pieces of it. -/
theorem flatten_groups (g : Gathering) (es : List (Entity Text)) : (g.groups es).flatten = es := by
  cases es with
  | nil => rfl
  | cons e rest => rw [groups, flatten_groupsFrom, List.nil_append]

/-- The size of the open group is the length of its joined snippets, so what is measured before
an extension is the extended group. -/
theorem isGroup_of_mem_groupsFrom {first : Entity Text} {more : List (Entity Text)} {size : Nat}
    {es : List (Entity Text)} (hsize : size = joinedLength (first :: more))
    (hopen : g.IsGroup (first :: more)) :
    ∀ group ∈ g.groupsFrom first more size es, g.IsGroup group := by
  induction es generalizing first more size with
  | nil =>
    intro group hgroup
    rw [groupsFrom, List.mem_singleton] at hgroup
    rwa [hgroup]
  | cons e rest ih =>
    intro group hgroup
    simp only [groupsFrom] at hgroup
    split at hgroup
    · rename_i htaken
      rw [Bool.and_eq_true, hsize] at htaken
      refine ih ?_ (hopen.concat htaken.1 htaken.2) group hgroup
      rw [← List.cons_append, joinedLength_concat (by simp), hsize]
    · rcases List.mem_cons.1 hgroup with rfl | hgroup
      · exact hopen
      · exact ih (by simp) (g.isGroup_singleton e) group hgroup

theorem isGroup_of_mem_groups {es group : List (Entity Text)} (h : group ∈ g.groups es) :
    g.IsGroup group := by
  cases es with
  | nil => exact absurd h List.not_mem_nil
  | cons e rest =>
    exact isGroup_of_mem_groupsFrom (by simp) (g.isGroup_singleton e) group h

theorem mem_of_mem_groups {es group : List (Entity Text)} {e : Entity Text}
    (hgroup : group ∈ g.groups es) (he : e ∈ group) : e ∈ es := by
  rw [← g.flatten_groups es]
  exact List.mem_flatten_of_mem hgroup he

/-! ## Fine groups -/

/-- A fine group of several members is a run of imports, of constants or of variables. -/
theorem IsGroup.kind_of_fine {bound : Option Int} {group : List (Entity Text)}
    (h : (fine bound).IsGroup group) (hlen : 2 ≤ group.length) :
    ∃ kind, Kind.isFine kind = true ∧ ∀ e ∈ group, e.kind = kind := by
  match group, h, hlen with
  | first :: second :: rest, ⟨hjoins, _⟩, _ =>
    have hsame : ∀ e ∈ second :: rest, Kind.isFine first.kind = true ∧ e.kind = first.kind := by
      intro e he
      simpa [fine, sameFineKind] using hjoins e he
    refine ⟨first.kind, (hsame second (by simp)).1, fun e he => ?_⟩
    rcases List.mem_cons.1 he with rfl | he
    · rfl
    · exact (hsame e he).2

end Gathering

end CodeCatalog
