import CodeCatalog.Workspace
import Mathlib.Data.List.Basic
set_option autoImplicit false

/-!
# Directory trees

In a directory tree the entries of a folder have different names, and a name is neither empty nor
a dot or two, and holds no separator.  All that is found in such a tree is one itself.  A path
that can be spelled is refused for reasons of the system alone.
-/

namespace CodeCatalog

/-- A code point that a path can hold: it stands for bytes other than zero. -/
def Glyph.IsSpellable : Glyph → Prop
  | .scalar c => c ≠ '\x00'
  | .surrogate offset => Workspace.isByte offset = true

instance (g : Glyph) : Decidable g.IsSpellable :=
  match g with
  | .scalar c => inferInstanceAs (Decidable (c ≠ '\x00'))
  | .surrogate offset => inferInstanceAs (Decidable (Workspace.isByte offset = true))

/-- A text that a path can be spelled like. -/
def Text.IsSpellable (t : Text) : Prop := ∀ g ∈ t, g.IsSpellable

instance (t : Text) : Decidable t.IsSpellable := inferInstanceAs (Decidable (∀ g ∈ t, _))

/-- A name that an entry of a folder can have. -/
structure Text.IsName (t : Text) : Prop where
  ne_nil : t ≠ []
  ne_dot : t ≠ "."
  ne_parent : t ≠ Workspace.parentPart
  separator_notMem : Path.separator ∉ t
  isSpellable : t.IsSpellable

instance (t : Text) : Decidable t.IsName :=
  decidable_of_iff (t ≠ [] ∧ t ≠ "." ∧ t ≠ Workspace.parentPart ∧ Path.separator ∉ t ∧
      t.IsSpellable)
    ⟨fun ⟨hnil, hdot, hparent, hseparator, hspell⟩ => ⟨hnil, hdot, hparent, hseparator, hspell⟩,
      fun h => ⟨h.ne_nil, h.ne_dot, h.ne_parent, h.separator_notMem, h.isSpellable⟩⟩

/-- A directory tree. -/
inductive Entry.WellFormed : Entry → Prop
  | file (content : Bytes) : WellFormed (.file content)
  | link (target : Text) : WellFormed (.link target)
  | folder {listable : Bool} {es : List (Text × Entry)} (named : ∀ m ∈ es, m.1.IsName)
    (distinct : (es.map Prod.fst).Nodup) (entries : ∀ m ∈ es, m.2.WellFormed) :
    WellFormed (.folder listable es)

/-! ## Spellings -/

theorem unencodableFrom?_eq_none {position : Nat} {t : Text} :
    Workspace.unencodableFrom? position t = none ↔
      ∀ offset, .surrogate offset ∈ t → Workspace.isByte offset = true := by
  induction t generalizing position with
  | nil => simp [Workspace.unencodableFrom?]
  | cons g t ih =>
    cases g with
    | scalar c => simp [Workspace.unencodableFrom?, ih]
    | surrogate offset =>
      by_cases hbyte : Workspace.isByte offset = true
      · simp [Workspace.unencodableFrom?, hbyte, ih]
      · simp [Workspace.unencodableFrom?, hbyte]

/-- A path can be spelled like a text that stands for bytes, none of them zero. -/
theorem Text.isSpellable_iff {t : Text} :
    t.IsSpellable ↔
      Workspace.unencodableFrom? 0 t = none ∧ t.contains (.scalar '\x00') = false := by
  rw [unencodableFrom?_eq_none, ← Bool.not_eq_true, List.contains_iff_mem]
  constructor
  · intro h
    exact ⟨fun _ hmem => h _ hmem, fun hmem => h _ hmem rfl⟩
  · rintro ⟨hbytes, hzero⟩ g hg
    cases g with
    | scalar c =>
      rintro rfl
      exact hzero hg
    | surrogate offset => exact hbytes offset hg

theorem isSpellable_of_misspelled? {t : Text} (h : Workspace.misspelled? t = none) :
    t.IsSpellable := by
  unfold Workspace.misspelled? at h
  split at h
  · cases h
  · rename_i hbytes
    split at h
    · cases h
    · rename_i hzero
      exact Text.isSpellable_iff.2 ⟨hbytes, Bool.not_eq_true _ ▸ hzero⟩

/-- What can be spelled is at most too long, and nothing else is. -/
theorem Text.isSystem_iff_isSpellable {t : Text} {c : FileCause}
    (h : Workspace.misspelled? t = some c) : c.isSystem = true ↔ t.IsSpellable := by
  rw [Text.isSpellable_iff]
  unfold Workspace.misspelled? at h
  split at h
  · rename_i u hbytes
    cases h
    exact iff_of_false Bool.false_ne_true fun ⟨hnone, _⟩ => by
      rw [hbytes] at hnone
      cases hnone
  · rename_i hbytes
    split at h
    · rename_i hzero
      cases h
      exact iff_of_false Bool.false_ne_true fun ⟨_, hnone⟩ => by
        rw [hzero] at hnone
        cases hnone
    · rename_i hzero
      split at h
      · cases h
        simpa [hbytes, FileCause.isSystem] using hzero
      · cases h

/-! ## Looking up -/

theorem Entry.WellFormed.mem {e : Entry} {m : Text × Entry} (he : e.WellFormed)
    (h : m ∈ e.entries) : m.2.WellFormed := by
  cases he with
  | file | link => exact absurd h List.not_mem_nil
  | folder _ _ entries => exact entries m h

theorem Entry.WellFormed.at? {e found : Entry} {way : List Text} (he : e.WellFormed)
    (h : e.at? way = some found) : found.WellFormed := by
  induction way generalizing e with
  | nil =>
    cases h
    exact he
  | cons name rest ih =>
    obtain ⟨child, hchild, h⟩ := Option.bind_eq_some_iff.1 h
    obtain ⟨before, after, hentries, _⟩ := List.lookup_eq_some_iff.1 hchild
    exact ih (he.mem (by simp [hentries] : (name, child) ∈ e.entries)) h

namespace Workspace

/-- Following components fails for reasons of the system. -/
theorem isSystem_of_locateFrom {root : Entry} {lookup : Lookup} {links : Nat}
    {way parts : List Text} {c : FileCause}
    (h : locateFrom root lookup links way parts = .error c) : c.isSystem = true := by
  fun_induction locateFrom root lookup links way parts with
  | case1 | case6 | case9 | case11 => cases h
  | case4 | case5 | case7 | case10 | case12 =>
    cases h
    rfl
  | case2 | case3 | case8 | case13 =>
    rename_i ih
    exact ih h

theorem wellFormed_of_locateFrom {root : Entry} {lookup : Lookup} {links : Nat}
    {way parts : List Text} {l : Located} {e : Entry} (hroot : root.WellFormed)
    (h : locateFrom root lookup links way parts = .ok l) (he : l.entry = some e) :
    e.WellFormed := by
  fun_induction locateFrom root lookup links way parts with
  | case1 =>
    cases h
    exact hroot.at? he
  | case2 | case3 | case8 | case13 =>
    rename_i ih
    exact ih h
  | case6 =>
    cases h
    cases he
  | case9 =>
    cases h
    cases he
    exact .file _
  | case11 =>
    cases h
    cases he
    exact .link _
  | case4 | case5 | case7 | case10 | case12 => cases h

variable {w : Workspace} {p : Path}

theorem wellFormed_of_locate {lookup : Lookup} {l : Located} {e : Entry} (hw : w.root.WellFormed)
    (h : w.locate lookup p = .ok l) (he : l.entry = some e) : e.WellFormed := by
  unfold locate at h
  split at h
  · cases h
  · exact wellFormed_of_locateFrom hw h he

theorem locate_of_entry {e : Entry} (h : w.entry? p = .ok (some e)) :
    ∃ l, w.locate .followed p = .ok l ∧ l.entry = some e := by
  unfold entry? at h
  split at h
  · rename_i l hlocate
    exact ⟨l, hlocate, Except.ok.inj h⟩
  · split at h <;> cases h

theorem wellFormed_of_entry {e : Entry} (hw : w.root.WellFormed)
    (h : w.entry? p = .ok (some e)) : e.WellFormed := by
  obtain ⟨l, hlocate, hentry⟩ := locate_of_entry h
  exact wellFormed_of_locate hw hlocate hentry

/-- A path that leads somewhere can be spelled. -/
theorem isSpellable_of_locate {lookup : Lookup} {l : Located} (h : w.locate lookup p = .ok l) :
    p.text.IsSpellable := by
  unfold locate at h
  split at h
  · cases h
  · rename_i hspelled
    exact isSpellable_of_misspelled? hspelled

/-- A path that leads nowhere does so for reasons of the system if it can be spelled. -/
theorem isSystem_iff_of_locate {lookup : Lookup} {c : FileCause}
    (h : w.locate lookup p = .error c) : c.isSystem = true ↔ p.text.IsSpellable := by
  unfold locate at h
  split at h
  · rename_i hspelled
    cases h
    exact Text.isSystem_iff_isSpellable hspelled
  · rename_i hspelled
    exact iff_of_true (isSystem_of_locateFrom h) (isSpellable_of_misspelled? hspelled)

/-- A path at which there is something can be spelled. -/
theorem isSpellable_of_entry {e : Entry} (h : w.entry? p = .ok (some e)) :
    p.text.IsSpellable := by
  obtain ⟨l, hlocate, -⟩ := locate_of_entry h
  exact isSpellable_of_locate hlocate

/-- A file whose path can be spelled is refused for reasons of the system. -/
theorem isSystem_of_read {f : FileFault} (hp : p.text.IsSpellable) (h : w.read p = .error f) :
    f.cause.isSystem = true := by
  unfold read at h
  split at h
  · rename_i c hlocate
    cases h
    exact (isSystem_iff_of_locate hlocate).2 hp
  · split at h
    · cases h
    · cases h
      rfl
    · cases h
      rfl

end Workspace

end CodeCatalog
