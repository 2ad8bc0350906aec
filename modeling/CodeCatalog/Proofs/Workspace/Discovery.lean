import CodeCatalog.Proofs.Text.Lines
import CodeCatalog.Proofs.Text.Order
import CodeCatalog.Proofs.Workspace.Tree
import CodeCatalog.Workspace.Discovery
import Mathlib.Data.List.Lex
set_option autoImplicit false

/-!
# Found files

What is found below a folder of a directory tree has the path of the folder followed by names, and
comes in the order of the components, so that no two found files have one path.  This needs the
names of each folder to be different: the results of a folder are put together by name, and each
name holds its own.
-/

namespace CodeCatalog

/-! ## Paths below a folder -/

/-- The components that lead from a folder to what is below it. -/
structure IsWay (way : List Text) : Prop where
  ne_nil : way ≠ []
  named : ∀ name ∈ way, name.IsName

namespace Path

open Workspace (extended)

variable {p : Path} {way : List Text}

/-- What stands before the components of the paths below a folder. -/
def lead (p : Path) : Text := if p.parts = [] then p.root else p.text ++ [separator]

theorem text_extended (h : way ≠ []) :
    (extended p way).text = p.lead ++ Text.joinWith [separator] way := by
  have hparts : (p.parts ++ way).isEmpty = false := by
    simp [h]
  rw [text, extended, hparts, Bool.and_false, if_neg Bool.false_ne_true, lead]
  split
  · rename_i hnone
    rw [hnone, List.nil_append]
  · rename_i hsome
    have hempty : p.parts.isEmpty = false := by
      simpa using hsome
    rw [text, hempty, Bool.and_false, if_neg Bool.false_ne_true, Text.joinWith_append hsome h]
    simp only [List.append_assoc]

/-- The components below a folder can be read off the text of a path. -/
theorem extended_text_injective {other : List Text} (hway : IsWay way) (hother : IsWay other)
    (h : (extended p way).text = (extended p other).text) : way = other := by
  rw [text_extended hway.ne_nil, text_extended hother.ne_nil] at h
  refine Text.joinWith_injective hway.ne_nil hother.ne_nil ?_ ?_ (List.append_cancel_left h)
  · exact fun name hname => (hway.named name hname).separator_notMem
  · exact fun name hname => (hother.named name hname).separator_notMem

theorem isSpellable_lead (h : p.text.IsSpellable) : p.lead.IsSpellable := by
  intro g hg
  unfold lead at hg
  split at hg
  · refine h g ?_
    rw [text]
    split
    · rename_i hempty
      have hroot : p.root = [] := by
        simp only [Bool.and_eq_true, List.isEmpty_iff] at hempty
        exact hempty.1
      simp [hroot] at hg
    · exact List.mem_append_left _ hg
  · rcases List.mem_append.1 hg with hg | hg
    · exact h g hg
    · rw [List.mem_singleton.1 hg]
      exact (by decide : '/' ≠ '\x00')

theorem isSpellable_extended (hp : p.text.IsSpellable) (hway : IsWay way) :
    (extended p way).text.IsSpellable := by
  intro g hg
  rw [text_extended hway.ne_nil] at hg
  rcases List.mem_append.1 hg with hg | hg
  · exact isSpellable_lead hp g hg
  · rcases Text.mem_of_mem_joinWith hg with hg | ⟨name, hname, hg⟩
    · rw [List.mem_singleton.1 hg]
      exact (by decide : '/' ≠ '\x00')
    · exact (hway.named name hname).isSpellable g hg

/-- The components of a path come before those of another one. -/
def Before (p q : Path) : Prop :=
  List.Lex (fun a b => Text.before a b = true) p.parts q.parts

theorem Before.ne {q : Path} (h : p.Before q) : p ≠ q := by
  rintro rfl
  exact List.lex_irrefl Text.before_irrefl _ h

end Path

/-! ## Results by name -/

theorem exists_named_of_mapM {α : Type} {results : List (Text × Except FileFault (List α))}
    {lists : List (List α)} (h : results.mapM Prod.snd = .ok lists) :
    ∃ named : List (Text × List α),
      results = named.map (fun m => (m.1, .ok m.2)) ∧ lists = named.map Prod.snd := by
  induction results generalizing lists with
  | nil =>
    cases h
    exact ⟨[], rfl, rfl⟩
  | cons r results ih =>
    obtain ⟨name, outcome⟩ := r
    rw [List.mapM_cons] at h
    cases outcome with
    | error f => cases h
    | ok found =>
      cases hrest : results.mapM Prod.snd with
      | error f =>
        rw [hrest] at h
        cases h
      | ok others =>
        rw [hrest] at h
        cases h
        obtain ⟨named, rfl, rfl⟩ := ih hrest
        exact ⟨(name, found) :: named, rfl, rfl⟩

/-- Results are put together when there is no fault among them, in the order of their names. -/
theorem exists_named_of_collectByName {α : Type}
    {results : List (Text × Except FileFault (List α))} {found : List α}
    (h : collectByName results = .ok found) :
    ∃ named : List (Text × List α),
      (named.map fun m => (m.1, Except.ok m.2)).Perm results ∧
      (named.Pairwise fun a b => Text.atMost a.1 b.1 = true) ∧
      found = named.flatMap Prod.snd := by
  unfold collectByName at h
  cases hlists : (results.mergeSort fun a b => a.1.atMost b.1).mapM Prod.snd with
  | error f =>
    simp only [hlists] at h
    cases h
  | ok lists =>
    simp only [hlists] at h
    cases h
    obtain ⟨named, hsorted, rfl⟩ := exists_named_of_mapM hlists
    have hordered := List.pairwise_mergeSort
      (fun (a b c : Text × Except FileFault (List α)) => Text.atMost_trans (a := a.1) (b := b.1))
      (fun a b => Text.atMost_total a.1 b.1) results
    refine ⟨named, ?_, ?_, rfl⟩
    · rw [← hsorted]
      exact List.mergeSort_perm _ _
    · rw [hsorted, List.pairwise_map] at hordered
      exact hordered

/-! ## What a query finds -/

/-- What a query finds in one entry of the folder at a path. -/
def FileQuery.findIn (q : FileQuery) (dir : Path) (m : Text × Entry) :
    Except FileFault (List Path) :=
  match m.2 with
  | .file _ => .ok (if q.wants m.1 then [dir.child m.1] else [])
  | .link _ => .ok []
  | .folder _ _ => if q.enters m.1 then m.2.find q (dir.child m.1) else .ok []

theorem findEach_eq_map (q : FileQuery) (dir : Path) (es : List (Text × Entry)) :
    Entry.findEach q dir es = es.map fun m => (m.1, q.findIn dir m) := by
  induction es with
  | nil => rw [Entry.findEach, List.map_nil]
  | cons m es ih =>
    obtain ⟨name, e⟩ := m
    cases e <;> rw [Entry.findEach, ih] <;> rfl

/-- Files below a folder, in the order of their components. -/
structure FoundBelow (dir : Path) (found : List Path) : Prop where
  below : ∀ p ∈ found, ∃ way, IsWay way ∧ p = Workspace.extended dir way
  ordered : found.Pairwise Path.Before

/-- Files at or below the entry of a folder that has a name. -/
structure FoundAt (dir : Path) (name : Text) (found : List Path) : Prop where
  below : ∀ p ∈ found, ∃ rest, IsWay (name :: rest) ∧ p = Workspace.extended dir (name :: rest)
  ordered : found.Pairwise Path.Before

theorem FoundAt.nil (dir : Path) (name : Text) : FoundAt dir name [] :=
  ⟨fun _ hp => absurd hp List.not_mem_nil, .nil⟩

theorem FoundAt.singleton (dir : Path) {name : Text} (hname : name.IsName) :
    FoundAt dir name [dir.child name] := by
  refine ⟨fun p hp => ⟨[], ⟨by simp, fun n hn => ?_⟩, ?_⟩, List.pairwise_singleton _ _⟩
  · rwa [List.mem_singleton.1 hn]
  · exact List.mem_singleton.1 hp

/-- What is below an entry of a folder is below the folder. -/
theorem FoundBelow.foundAt {dir : Path} {name : Text} {found : List Path} (hname : name.IsName)
    (h : FoundBelow (dir.child name) found) : FoundAt dir name found := by
  refine ⟨fun p hp => ?_, h.ordered⟩
  obtain ⟨rest, hrest, rfl⟩ := h.below p hp
  refine ⟨rest, ⟨by simp, fun n hn => ?_⟩, ?_⟩
  · rcases List.mem_cons.1 hn with rfl | hn
    · exact hname
    · exact hrest.named n hn
  · simp [Workspace.extended, Path.child]

/-- Files of entries with different names are in the order of the names. -/
theorem FoundAt.before {dir p r : Path} {a b : Text} {found others : List Path}
    (hfound : FoundAt dir a found) (hothers : FoundAt dir b others)
    (hab : Text.before a b = true) (hp : p ∈ found) (hr : r ∈ others) : p.Before r := by
  obtain ⟨_, _, rfl⟩ := hfound.below p hp
  obtain ⟨_, _, rfl⟩ := hothers.below r hr
  exact List.Lex.append_left (fun a b => Text.before a b = true) (.rel hab) dir.parts

theorem foundBelow_flatMap {dir : Path} {named : List (Text × List Path)}
    (hnames : named.Pairwise fun a b => Text.before a.1 b.1 = true)
    (hfound : ∀ m ∈ named, FoundAt dir m.1 m.2) : FoundBelow dir (named.flatMap Prod.snd) := by
  refine ⟨fun p hp => ?_, List.pairwise_flatMap.2 ⟨fun m hm => (hfound m hm).ordered, ?_⟩⟩
  · obtain ⟨m, hm, hp⟩ := List.mem_flatMap.1 hp
    obtain ⟨rest, hway, rfl⟩ := (hfound m hm).below p hp
    exact ⟨_, hway, rfl⟩
  · refine hnames.imp_of_mem fun ha hb hab p hp r hr => ?_
    exact (hfound _ ha).before (hfound _ hb) hab hp hr

/-- One entry of a folder, provided that what is found below it is below it. -/
theorem foundAt_of_findIn {q : FileQuery} {dir : Path} {m : Text × Entry} {found : List Path}
    (hname : m.1.IsName)
    (ih : ∀ found, m.2.find q (dir.child m.1) = .ok found → FoundBelow (dir.child m.1) found)
    (h : q.findIn dir m = .ok found) : FoundAt dir m.1 found := by
  unfold FileQuery.findIn at h
  split at h
  · split at h <;> cases h
    · exact FoundAt.singleton dir hname
    · exact FoundAt.nil dir m.1
  · cases h
    exact FoundAt.nil dir m.1
  · split at h
    · exact (ih found h).foundAt hname
    · cases h
      exact FoundAt.nil dir m.1

/-- In a directory tree, what a query finds below a folder comes in the order of components. -/
theorem foundBelow_of_find {q : FileQuery} {dir : Path} {e : Entry} {found : List Path}
    (he : e.WellFormed) (h : e.find q dir = .ok found) : FoundBelow dir found := by
  induction he generalizing dir found with
  | file content =>
    rw [Entry.find] at h
    · cases h
    · simp
  | link target =>
    rw [Entry.find] at h
    · cases h
    · simp
  | @folder listable es hnamed hdistinct _ ih =>
    rw [Entry.find, findEach_eq_map] at h
    split at h
    · obtain ⟨named, hperm, hordered, rfl⟩ := exists_named_of_collectByName h
      have hresult : ∀ m ∈ named, ∃ n ∈ es, n.1 = m.1 ∧ q.findIn dir n = .ok m.2 := by
        intro m hm
        obtain ⟨n, hn, heq⟩ := List.mem_map.1 (hperm.mem_iff.1 (List.mem_map_of_mem hm))
        exact ⟨n, hn, (Prod.mk.inj heq).1, (Prod.mk.inj heq).2⟩
      -- The names are those of the folder, so that none of them stands twice.
      have hnodup : (named.map Prod.fst).Nodup := by
        have hnames := hperm.map Prod.fst
        rw [List.map_map, List.map_map] at hnames
        exact hnames.nodup_iff.2 hdistinct
      have hstrict : named.Pairwise fun a b => Text.before a.1 b.1 = true :=
        (hordered.and (List.pairwise_map.1 hnodup)).imp fun hab =>
          Text.before_of_atMost_of_ne hab.1 hab.2
      refine foundBelow_flatMap hstrict fun m hm => ?_
      obtain ⟨n, hn, hname, hfind⟩ := hresult m hm
      rw [← hname]
      exact foundAt_of_findIn (hnamed n hn) (fun _ => ih n hn) hfind
    · cases h

/-- Files below one folder of a directory tree have different texts for paths. -/
theorem FoundBelow.pairwise_text_ne {dir : Path} {found : List Path} (h : FoundBelow dir found) :
    found.Pairwise fun p r => p.text ≠ r.text := by
  refine h.ordered.imp_of_mem fun {p r} hp hr hbefore heq => ?_
  obtain ⟨way, hway, rfl⟩ := h.below p hp
  obtain ⟨other, hother, rfl⟩ := h.below r hr
  exact hbefore.ne (congrArg _ (Path.extended_text_injective hway hother heq))

namespace Workspace

variable {w : Workspace} {root : Path} {extensions excluded : List Text} {found : List Path}

theorem foundBelow_of_findFiles (hw : w.root.WellFormed)
    (h : w.findFiles root extensions excluded = .ok found) :
    FoundBelow root found ∧ root.text.IsSpellable := by
  unfold findFiles at h
  split at h
  · cases h
  · rename_i listable es hentry
    refine ⟨?_, isSpellable_of_entry hentry⟩
    cases hfind : (Entry.folder listable es).find (.ofExtensions extensions excluded) root with
    | error f =>
      rw [hfind] at h
      cases h
    | ok files =>
      rw [hfind] at h
      cases h
      exact foundBelow_of_find (wellFormed_of_entry hw hentry) hfind
  · cases h

/-- A found file has a path that can be spelled. -/
theorem isSpellable_of_findFiles (hw : w.root.WellFormed)
    (h : w.findFiles root extensions excluded = .ok found) {p : Path} (hp : p ∈ found) :
    p.text.IsSpellable := by
  obtain ⟨hbelow, hroot⟩ := foundBelow_of_findFiles hw h
  obtain ⟨way, hway, rfl⟩ := hbelow.below p hp
  exact Path.isSpellable_extended hroot hway

end Workspace

end CodeCatalog
