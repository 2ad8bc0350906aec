import Mathlib.Data.List.Chain
import CodeCatalog.Proofs.Chunk.Fewest
import Mathlib.Order.Bounds.Defs
set_option autoImplicit false

/-!
# Closed groups

A group is closed only before an entity that it may not take, because the two may not stand together
or have no room together.  So the cuts of a merge are forced.  Where whatever is adjacent is
gathered, a file is cut into the fewest single entities and groups within the target; and at every
level a merge leaves nothing that the level would merge again.
-/

namespace CodeCatalog

open Entity (merge?)

namespace Gathering

variable {g : Gathering}

/-! ## Where groups are closed -/

/-- A group may not take the first member of the next one. -/
def ClosedBefore (g : Gathering) (group next : List (Entity Text)) : Prop :=
  ∀ first ∈ group.head?, ∀ second ∈ next.head?, g.joins first second = true →
    g.fits (joinedLength group + second.snippet.length + 1) = false

theorem exists_groupsFrom_eq_cons (g : Gathering) (first : Entity Text)
    (more : List (Entity Text)) (size : Nat) (es : List (Entity Text)) :
    ∃ more' later, g.groupsFrom first more size es = (first :: more') :: later := by
  induction es generalizing more size with
  | nil => exact ⟨more, [], rfl⟩
  | cons e rest ih =>
    simp only [groupsFrom]
    split
    · exact ih _ _
    · exact ⟨more, _, rfl⟩

/-- The open group is measured with the next entity before it is closed. -/
theorem isChain_groupsFrom {first : Entity Text} {more : List (Entity Text)} {size : Nat}
    {es : List (Entity Text)} (hsize : size = joinedLength (first :: more)) :
    (g.groupsFrom first more size es).IsChain g.ClosedBefore := by
  induction es generalizing first more size with
  | nil => exact .singleton _
  | cons e rest ih =>
    simp only [groupsFrom]
    split
    · refine ih ?_
      rw [← List.cons_append, joinedLength_concat (by simp), hsize]
    · rename_i hclosed
      have hlater : (g.groupsFrom e [] e.snippet.length rest).IsChain g.ClosedBefore :=
        ih (joinedLength_singleton e).symm
      obtain ⟨more', later, hnext⟩ := exists_groupsFrom_eq_cons g e [] e.snippet.length rest
      rw [hnext] at hlater ⊢
      refine .cons_cons ?_ hlater
      intro d hd d' hd' hjoins
      cases hd
      cases hd'
      rw [hsize, hjoins, Bool.true_and] at hclosed
      exact Bool.eq_false_iff.2 hclosed

theorem isChain_groups (g : Gathering) (es : List (Entity Text)) :
    (g.groups es).IsChain g.ClosedBefore := by
  cases es with
  | nil => exact .nil
  | cons e rest => exact isChain_groupsFrom (joinedLength_singleton e).symm

/-! ### Closed groups are the gathered ones -/

theorem joinedLength_le_of_prefix {group whole : List (Entity Text)} (h : group <+: whole) :
    joinedLength group ≤ joinedLength whole := by
  obtain ⟨others, rfl⟩ := h
  cases group with
  | nil => exact Nat.zero_le _
  | cons first more =>
    rw [List.cons_append, joinedLength_cons, joinedLength_cons, List.map_append, List.sum_append]
    omega

/-- An open group takes all members of a group that it begins. -/
theorem groupsFrom_append {first : Entity Text} {taken more es : List (Entity Text)} {size : Nat}
    (hsize : size = joinedLength (first :: taken)) (hgroup : g.IsGroup (first :: (taken ++ more))) :
    g.groupsFrom first taken size (more ++ es) =
      g.groupsFrom first (taken ++ more) (joinedLength (first :: (taken ++ more))) es := by
  induction more generalizing taken size with
  | nil => rw [List.nil_append, List.append_nil, hsize]
  | cons e more ih =>
    have hjoins : g.joins first e = true := hgroup.1 e (by simp)
    have hsize' : size + e.snippet.length + 1 = joinedLength (first :: (taken ++ [e])) := by
      rw [← List.cons_append, joinedLength_concat (by simp), hsize]
    have hwhole : joinedLength (first :: (taken ++ [e])) ≤
        joinedLength (first :: (taken ++ e :: more)) :=
      joinedLength_le_of_prefix ⟨more, by simp⟩
    have hfits : g.fits (size + e.snippet.length + 1) = true :=
      fits_of_le (hsize' ▸ hwhole) (hgroup.2 (by simp))
    rw [List.cons_append, groupsFrom]
    simp only [hjoins, hfits, Bool.and_true, if_true]
    rw [ih hsize' (by simpa using hgroup)]
    simp

/-- There is one way only to cut a list into groups each of which is closed before the next one. -/
theorem groups_flatten_of_isChain {cut : List (List (Entity Text))}
    (hgroups : ∀ group ∈ cut, g.IsGroup group) (hclosed : cut.IsChain g.ClosedBefore) :
    g.groups cut.flatten = cut := by
  induction cut with
  | nil => rfl
  | cons group rest ih =>
    obtain ⟨hgroup, hrest⟩ := List.forall_mem_cons.1 hgroups
    obtain ⟨first, more, rfl⟩ := List.exists_cons_of_ne_nil hgroup.ne_nil
    have hopen : g.groups (((first :: more) :: rest).flatten) =
        g.groupsFrom first more (joinedLength (first :: more)) rest.flatten := by
      have hwhole : g.IsGroup (first :: ([] ++ more)) := hgroup
      rw [List.flatten_cons, List.cons_append, groups]
      exact groupsFrom_append (joinedLength_singleton first).symm hwhole
    rw [hopen]
    cases rest with
    | nil => rfl
    | cons next others =>
      obtain ⟨hbefore, hlater⟩ := List.isChain_cons_cons.1 hclosed
      obtain ⟨second, nexts, rfl⟩ :=
        List.exists_cons_of_ne_nil (hrest next List.mem_cons_self).ne_nil
      have hfull : ¬ (g.joins first second &&
          g.fits (joinedLength (first :: more) + second.snippet.length + 1)) = true := by
        rw [Bool.and_eq_true]
        rintro ⟨hjoins, hfits⟩
        rw [hbefore first rfl second rfl hjoins] at hfits
        cases hfits
      have hnext : g.groups (((second :: nexts) :: others).flatten) =
          g.groupsFrom second [] second.snippet.length (nexts ++ others.flatten) := rfl
      rw [List.flatten_cons, List.cons_append, groupsFrom, if_neg hfull, ← hnext,
        ih hrest hlater]

end Gathering

/-! ## The best cut of a file -/

/-- The snippets of a group, joined as lines, are no longer than a target. -/
def WithinTarget (target : Option Int) (group : List (Entity Text)) : Prop :=
  ∀ t ∈ target, ((Text.joinLines (group.map Entity.snippet)).length : Int) ≤ t

/-- A way to cut consecutive entities into single ones and groups within a target. -/
structure IsCutWithin (target : Option Int) (es : List (Entity Text))
    (groups : List (List (Entity Text))) : Prop where
  flatten : groups.flatten = es
  nonempty : [] ∉ groups
  allowed : ∀ group ∈ groups, group.length = 1 ∨ WithinTarget target group

namespace Gathering

variable {target : Option Int}

theorem fits_any_iff {size : Nat} :
    (any target).fits size = true ↔ ∀ t ∈ target, (size : Int) ≤ t := by
  cases target with
  | none => simp [any, fits]
  | some t => simp [any, fits]

theorem isGroup_any_iff_allowed {group : List (Entity Text)} (hne : group ≠ []) :
    (any target).IsGroup group ↔ group.length = 1 ∨ WithinTarget target group := by
  have hpos := List.length_pos_iff.2 hne
  rw [isGroup_any_iff, fits_any_iff]
  constructor
  · rintro ⟨-, hfits⟩
    rcases Nat.lt_or_ge group.length 2 with hlen | hlen
    · exact .inl (by omega)
    · exact .inr (hfits hlen)
  · rintro (hone | hfits)
    · exact ⟨hne, fun hlen => by omega⟩
    · exact ⟨hne, fun _ => hfits⟩

theorem isCutWithin_iff {es : List (Entity Text)} {groups : List (List (Entity Text))} :
    IsCutWithin target es groups ↔
      groups.flatten = es ∧ ∀ group ∈ groups, (any target).IsGroup group := by
  constructor
  · rintro ⟨hflatten, hnonempty, hallowed⟩
    refine ⟨hflatten, fun group hgroup => ?_⟩
    have hne : group ≠ [] := fun hnil => hnonempty (hnil ▸ hgroup)
    exact (isGroup_any_iff_allowed hne).2 (hallowed group hgroup)
  · rintro ⟨hflatten, hgroups⟩
    refine ⟨hflatten, fun hnil => (hgroups [] hnil).ne_nil rfl, fun group hgroup => ?_⟩
    exact (isGroup_any_iff_allowed (hgroups group hgroup).ne_nil).1 (hgroups group hgroup)

/-- Gathering whatever is adjacent makes the least number of groups that there can be. -/
theorem isLeast_length_groups (target : Option Int) (es : List (Entity Text)) :
    IsLeast {n | ∃ cut, IsCutWithin target es cut ∧ cut.length = n}
      ((any target).groups es).length := by
  constructor
  · refine ⟨(any target).groups es, isCutWithin_iff.2 ⟨flatten_groups _ es, ?_⟩, rfl⟩
    exact fun group hgroup => isGroup_of_mem_groups hgroup
  · rintro n ⟨cut, hcut, rfl⟩
    obtain ⟨rfl, hgroups⟩ := isCutWithin_iff.1 hcut
    exact length_groups_any_le hgroups

end Gathering

/-- The entities that are put in the place of the groups of a file, whose entities are in line
order.  No other way to cut them has fewer parts, and no entity has room for the first member of
the next group. -/
structure IsBestCut (target : Option Int) (es : List (Entity Text)) (path : Text)
    (file : List (Entity Text)) (groups : List (List (Entity Text)))
    (merged : List (Entity Text)) : Prop where
  inOrder : InLineOrder (es.filter fun e => e.filePath == path) file
  cut : IsCutWithin target file groups
  becomes : List.Forall₂ Entity.Becomes groups merged
  fewest : IsLeast {n | ∃ cut, IsCutWithin target file cut ∧ cut.length = n} merged.length
  forced : ∀ (i : Nat) (e next : Entity Text) (others : List (Entity Text)),
    merged[i]? = some e → groups[i + 1]? = some (next :: others) →
      ∀ t ∈ target, t < ((e.snippet ++ Glyph.newline :: next.snippet).length : Int)

/-- An entity that is put in the place of a group has no room for the first member of the next
one. -/
theorem Gathering.ClosedBefore.lt_length {t : Int} {group others : List (Entity Text)}
    {e next : Entity Text} (h : (any (some t)).ClosedBefore group (next :: others))
    (hne : group ≠ []) (he : Entity.Becomes group e) :
    t < ((e.snippet ++ Glyph.newline :: next.snippet).length : Int) := by
  obtain ⟨first, more, rfl⟩ := List.exists_cons_of_ne_nil hne
  have hfull := h first rfl next rfl rfl
  have hlong : t < ((joinedLength (first :: more) + next.snippet.length + 1 : Nat) : Int) :=
    Int.not_le.1 (of_decide_eq_false hfull)
  rw [he.snippet, List.length_append, List.length_cons]
  rw [joinedLength] at hlong
  omega

theorem isBestCut_groups (target : Option Int) (es : List (Entity Text)) (path : Text) :
    IsBestCut target es path (inFile es path) ((Gathering.any target).groups (inFile es path))
      (((Gathering.any target).groups (inFile es path)).filterMap merge?) := by
  have hleast := Gathering.isLeast_length_groups target (inFile es path)
  have hchain := Gathering.isChain_groups (.any target) (inFile es path)
  have hgroups : ∀ group ∈ (Gathering.any target).groups (inFile es path), group ≠ [] :=
    fun group hgroup => (Gathering.isGroup_of_mem_groups hgroup).ne_nil
  have hcut := Gathering.isCutWithin_iff.2 ⟨Gathering.flatten_groups (.any target) (inFile es path),
    fun group hgroup => Gathering.isGroup_of_mem_groups hgroup⟩
  have hbecomes := forall₂_filterMap_merge? hcut.nonempty
  refine ⟨inLineOrder_inFile es path, hcut, hbecomes, hbecomes.length_eq ▸ hleast, ?_⟩
  intro i e next others he hnext t ht
  obtain ⟨hi, rfl⟩ := List.getElem?_eq_some_iff.1 he
  obtain ⟨hj, hnext⟩ := List.getElem?_eq_some_iff.1 hnext
  cases ht
  have hclosed := List.isChain_iff_getElem.1 hchain i hj
  rw [hnext] at hclosed
  exact hclosed.lt_length (hgroups _ (List.getElem_mem _))
    ((List.forall₂_iff_get.1 hbecomes).2 i (Nat.lt_of_succ_lt hj) hi)

/-- Merging whatever is adjacent is optimal and forced: it cuts the entities of each file, in the
order in which the files are first seen, into the fewest single entities and groups within the
target, and no entity of a file has room for the first member of the next group. -/
theorem mergeAll_any_isBestCut (target : Option Int) (es : List (Entity Text)) :
    ∃ (paths : List Text) (merged : List (List (Entity Text))),
      Text.IsFirstSeen (es.map Entity.filePath) paths ∧
        (Gathering.any target).mergeAll es = merged.flatten ∧
        List.Forall₂ (fun path out => ∃ file groups, IsBestCut target es path file groups out)
          paths merged := by
  refine ⟨Text.distinct (es.map Entity.filePath),
    (Text.distinct (es.map Entity.filePath)).map fun path =>
      ((Gathering.any target).groups (inFile es path)).filterMap merge?,
    Text.isFirstSeen_distinct _, ?_, ?_⟩
  · rw [Gathering.mergeAll, perFile_eq, List.flatMap_map, List.flatMap_def]
  · rw [List.forall₂_map_right_iff, List.forall₂_same]
    intro path _
    exact ⟨_, _, isBestCut_groups target es path⟩

/-! ## Merging again -/

namespace Gathering

variable {g : Gathering}

/-- Two neighbours that may not stand together or have no room together. -/
def StandApart (g : Gathering) (d e : Entity Text) : Prop :=
  g.joins d e = true → g.fits (d.snippet.length + e.snippet.length + 1) = false

/-- Entities of which no two neighbours may be put together are gathered one by one. -/
theorem groups_of_isChain {es : List (Entity Text)} (h : es.IsChain g.StandApart) :
    g.groups es = es.map fun e => [e] := by
  have hgroups : ∀ group ∈ es.map fun e => [e], g.IsGroup group := by
    intro group hgroup
    obtain ⟨e, -, rfl⟩ := List.mem_map.1 hgroup
    exact g.isGroup_singleton e
  have hclosed : (es.map fun e => [e]).IsChain g.ClosedBefore := by
    rw [List.isChain_map]
    refine h.imp fun d e hapart first hfirst second hsecond hjoins => ?_
    obtain rfl : d = first := Option.some.inj hfirst
    obtain rfl : e = second := Option.some.inj hsecond
    rw [joinedLength_singleton]
    exact hapart hjoins
  have hcut := groups_flatten_of_isChain hgroups hclosed
  rwa [← List.flatMap_def, List.flatMap_singleton'] at hcut

/-- Entities of one file that are in line order and stand apart are left alone. -/
theorem mergeAll_of_isChain {es : List (Entity Text)} {path : Text}
    (hpath : ∀ e ∈ es, e.filePath = path)
    (hordered : es.Pairwise fun a b => a.lineFrom ≤ b.lineFrom)
    (h : es.IsChain g.StandApart) : g.mergeAll es = es := by
  rcases eq_or_ne es [] with rfl | hne
  · rfl
  · rw [mergeAll, perFile_of_sorted hne hpath hordered, List.flatMap_singleton,
      groups_of_isChain h, List.filterMap_map]
    exact List.filterMap_some

variable {level : Granularity} {bound : Option Int}

/-- What a fine group becomes has the kind of its first member. -/
theorem IsGroup.kind_of_merge? {first e : Entity Text} {more : List (Entity Text)}
    (h : (fine bound).IsGroup (first :: more)) (he : merge? (first :: more) = some e) :
    e.kind = first.kind := by
  cases more with
  | nil => rw [Option.some.inj he]
  | cons second rest =>
    obtain ⟨kind, -, hkinds⟩ := h.kind_of_fine (by simp)
    have hsame : ((second :: rest).all fun d => d.kind == first.kind) = true := by
      refine List.all_eq_true.2 fun d hd => beq_iff_eq.2 ?_
      rw [hkinds d (List.mem_cons_of_mem _ hd), hkinds first List.mem_cons_self]
    rw [Entity.merge?_cons_cons, Option.some.injEq] at he
    subst he
    exact if_pos hsame

/-- What two groups become may stand together only if the first members may. -/
theorem joins_of_merge? {first second d e : Entity Text} {more others : List (Entity Text)}
    (hgroup : (ofLevel level bound).IsGroup (first :: more))
    (hnext : (ofLevel level bound).IsGroup (second :: others))
    (hd : merge? (first :: more) = some d) (he : merge? (second :: others) = some e)
    (h : (ofLevel level bound).joins d e = true) :
    (ofLevel level bound).joins first second = true := by
  cases level with
  | fine =>
    change sameFineKind first second = true
    rw [sameFineKind, ← hgroup.kind_of_merge? hd, ← hnext.kind_of_merge? he]
    exact h
  | medium => rfl
  | coarse => rfl

/-- What a closed group becomes has no room for its next one as a whole, as it has none for the
first member of that. -/
theorem ClosedBefore.standApart {group next : List (Entity Text)} {d e : Entity Text}
    (h : (ofLevel level bound).ClosedBefore group next)
    (hgroup : (ofLevel level bound).IsGroup group) (hnext : (ofLevel level bound).IsGroup next)
    (hd : merge? group = some d) (he : merge? next = some e) :
    (ofLevel level bound).StandApart d e := by
  obtain ⟨first, more, rfl⟩ := List.exists_cons_of_ne_nil hgroup.ne_nil
  obtain ⟨second, others, rfl⟩ := List.exists_cons_of_ne_nil hnext.ne_nil
  intro hjoins
  have hfull := h first rfl second rfl (joins_of_merge? hgroup hnext hd he hjoins)
  have hlength : joinedLength (first :: more) + second.snippet.length + 1 ≤
      d.snippet.length + e.snippet.length + 1 := by
    have hwhole : second.snippet.length ≤ joinedLength (second :: others) := by
      rw [joinedLength_cons]
      exact Nat.le_add_right _ _
    rw [Entity.snippet_of_merge? hd, Entity.snippet_of_merge? he]
    exact Nat.succ_le_succ (Nat.add_le_add_left hwhole _)
  refine Bool.eq_false_iff.2 fun hfits => ?_
  rw [fits_of_le hlength hfits] at hfull
  cases hfull

theorem isChain_filterMap_merge? (es : List (Entity Text)) :
    (((ofLevel level bound).groups es).filterMap merge?).IsChain
      (ofLevel level bound).StandApart := by
  have hgroups : ∀ group ∈ (ofLevel level bound).groups es, (ofLevel level bound).IsGroup group :=
    fun group hgroup => isGroup_of_mem_groups hgroup
  obtain ⟨hlength, hmerge⟩ := List.forall₂_iff_get.1 <|
    forall₂_merge? fun hnil => (hgroups [] hnil).ne_nil rfl
  refine List.isChain_iff_getElem.2 fun i hi => ?_
  have hi' : i + 1 < ((ofLevel level bound).groups es).length := hlength ▸ hi
  have hclosed := List.isChain_iff_getElem.1 (isChain_groups (ofLevel level bound) es) i hi'
  exact hclosed.standApart (hgroups _ (List.getElem_mem _)) (hgroups _ (List.getElem_mem _))
    (hmerge i (Nat.lt_of_succ_lt hi') (Nat.lt_of_succ_lt hi)) (hmerge (i + 1) hi' hi)

end Gathering

/-- What groups become starts on the lines of their first members. -/
theorem map_lineFrom_sublist (groups : List (List (Entity Text))) :
    ((groups.filterMap merge?).map Entity.lineFrom).Sublist
      (groups.flatten.map Entity.lineFrom) := by
  induction groups with
  | nil => exact .slnil
  | cons group rest ih =>
    cases group with
    | nil => exact ih
    | cons first more =>
      obtain ⟨e, he⟩ := Entity.exists_merge?_eq_some (List.cons_ne_nil first more)
      rw [List.filterMap_cons_some he, List.map_cons, (Entity.lines_of_merge? he).2.1,
        List.flatten_cons, List.cons_append, List.map_cons, List.map_append]
      exact (ih.trans (List.sublist_append_right _ _)).cons_cons _

theorem pairwise_filterMap_merge? {g : Gathering} {es : List (Entity Text)}
    (h : es.Pairwise fun a b => a.lineFrom ≤ b.lineFrom) :
    ((g.groups es).filterMap merge?).Pairwise fun a b => a.lineFrom ≤ b.lineFrom := by
  have hlines := map_lineFrom_sublist (g.groups es)
  rw [Gathering.flatten_groups] at hlines
  exact List.pairwise_map.1 ((List.pairwise_map.2 h).sublist hlines)

/-- Merging what is merged at the same level and within the same bound changes nothing. -/
theorem mergeEntities_idempotent (level : Granularity) (bound : Option Int)
    (es : List (Entity Text)) :
    mergeEntities level bound (mergeEntities level bound es) = mergeEntities level bound es := by
  let out (path : Text) : List (Entity Text) :=
    ((Gathering.ofLevel level bound).groups (inFile es path)).filterMap merge?
  have hmerged : mergeEntities level bound es =
      (Text.distinct (es.map Entity.filePath)).flatMap out := by
    rw [mergeEntities, Gathering.mergeAll, perFile_eq, List.flatMap_map]
  have hpath : ∀ path, ∀ e ∈ out path, e.filePath = path :=
    fun path e he => samePath_of_mem_groups he
  have hdistinct := Text.nodup_distinct (es.map Entity.filePath)
  have hsettled : ∀ path, mergeEntities level bound (out path) = out path := fun path =>
    Gathering.mergeAll_of_isChain (hpath path)
      (pairwise_filterMap_merge? (inLineOrder_inFile es path).ordered)
      (Gathering.isChain_filterMap_merge? _)
  calc mergeEntities level bound (mergeEntities level bound es)
      = (Text.distinct (es.map Entity.filePath)).flatMap fun path =>
          mergeEntities level bound (out path) := by
        rw [hmerged, mergeEntities_flatMap hpath hdistinct]
    _ = (Text.distinct (es.map Entity.filePath)).flatMap out :=
        List.flatMap_congr fun path _ => hsettled path
    _ = mergeEntities level bound es := hmerged.symm

end CodeCatalog
