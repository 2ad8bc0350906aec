import CodeCatalog.Workspace
import Mathlib.Data.List.Basic
set_option autoImplicit false

/-!
# Files that are put into a tree

Where an entry is put at the end of a way through folders, it is found there, and what it was put
last is all that counts.  If there was no folder, the folders of the tree stay folders, and the
files and links beside the way stay what they are.  So a path leads where it led before a file was
made at its end.  What is kept of a content is all of it, if there is room.
-/

namespace CodeCatalog

namespace Entry

variable {e new : Entry} {name key : Text} {way q : List Text} {found : Entry}

/-- There is a folder at the end of a way. -/
def HasFolder (e : Entry) (way : List Text) : Prop :=
  ∃ listable es, e.at? way = some (.folder listable es)

/-! ## Looking up -/

theorem at?_cons : e.at? (name :: way) = (e.entries.lookup name).bind fun child => child.at? way :=
  rfl

theorem at?_append : e.at? (way ++ q) = (e.at? way).bind fun found => found.at? q := by
  induction way generalizing e with
  | nil => rfl
  | cons name way ih =>
    rw [List.cons_append, at?_cons, at?_cons]
    cases e.entries.lookup name with
    | none => rfl
    | some child => exact ih

theorem hasFolder_cons :
    e.HasFolder (name :: way) ↔
      ∃ child, e.entries.lookup name = some child ∧ child.HasFolder way := by
  unfold HasFolder
  simp only [at?_cons, Option.bind_eq_some_iff]
  constructor
  · rintro ⟨listable, es, child, hchild, h⟩
    exact ⟨child, hchild, listable, es, h⟩
  · rintro ⟨child, hchild, listable, es, h⟩
    exact ⟨listable, es, child, hchild, h⟩

/-- What has entries is a folder. -/
theorem exists_folder_of_lookup (h : e.entries.lookup name = some found) :
    ∃ listable es, e = .folder listable es := by
  cases e with
  | file content => cases h
  | link target => cases h
  | folder listable es => exact ⟨listable, es, rfl⟩

/-- A way that goes on behind an entry leads through a folder. -/
theorem hasFolder_of_at?_append (h : e.at? (way ++ name :: q) = some found) : e.HasFolder way := by
  rw [at?_append] at h
  obtain ⟨inner, hinner, h⟩ := Option.bind_eq_some_iff.1 h
  rw [at?_cons] at h
  obtain ⟨child, hchild, -⟩ := Option.bind_eq_some_iff.1 h
  obtain ⟨listable, es, rfl⟩ := exists_folder_of_lookup hchild
  exact ⟨listable, es, hinner⟩

theorem HasFolder.dropLast (h : e.HasFolder way) : e.HasFolder way.dropLast := by
  rcases List.eq_nil_or_concat way with rfl | ⟨dir, name, rfl⟩
  · exact h
  · obtain ⟨listable, es, h⟩ := h
    rw [List.concat_eq_append] at h ⊢
    rw [List.dropLast_concat]
    exact hasFolder_of_at?_append h

/-- The tree is a folder if there is one in it. -/
theorem HasFolder.root (h : e.HasFolder way) : e.HasFolder [] := by
  cases way with
  | nil => exact h
  | cons name way =>
    obtain ⟨child, hchild, -⟩ := hasFolder_cons.1 h
    obtain ⟨listable, es, rfl⟩ := exists_folder_of_lookup hchild
    exact ⟨listable, es, rfl⟩

/-! ## Putting -/

section

variable {listable : Bool} {es : List (Text × Entry)} {child : Entry}

theorem put_of_lookup_eq_some (h : es.lookup name = some child) :
    (folder listable es).put (name :: way) new =
      folder listable (es.map fun m => if m.1 = name then (name, child.put way new) else m) := by
  simp only [put, h]

theorem put_of_lookup_eq_none (h : es.lookup name = none) :
    (folder listable es).put (name :: way) new =
      folder listable (es ++ [(name, (folder true []).put way new)]) := by
  simp only [put, h]

theorem lookup_map_replace :
    (es.map fun m => if m.1 = name then (name, new) else m).lookup key =
      if key = name then (es.lookup name).map fun _ => new else es.lookup key := by
  induction es with
  | nil => simp
  | cons m es ih =>
    obtain ⟨k, old⟩ := m
    by_cases hk : k = name
    · subst hk
      by_cases hkey : key = k
      · simp [hkey]
      · simpa [hkey, beq_eq_false_iff_ne.2 hkey, List.lookup_cons] using ih
    · by_cases hkey : key = k
      · subst hkey
        simp [hk]
      · simpa [hk, Ne.symm hk, beq_eq_false_iff_ne.2 hkey, beq_eq_false_iff_ne.2 (Ne.symm hk),
          List.lookup_cons] using ih

/-- A folder has an entry after it was put into it, and its other entries as before. -/
theorem lookup_put :
    ((folder listable es).put (name :: way) new).entries.lookup key =
      if key = name then some (((es.lookup name).getD (.folder true [])).put way new)
      else es.lookup key := by
  cases h : es.lookup name with
  | some child =>
    rw [put_of_lookup_eq_some h]
    refine lookup_map_replace.trans ?_
    rw [h]
    rfl
  | none =>
    rw [put_of_lookup_eq_none h]
    change (es ++ [(name, (folder true []).put way new)]).lookup key = _
    rw [List.lookup_append]
    by_cases hkey : key = name
    · subst hkey
      simp [h]
    · simp [hkey, beq_eq_false_iff_ne.2 hkey, List.lookup_cons]

theorem hasFolder_nil_put_cons : ((folder listable es).put (name :: way) new).HasFolder [] := by
  cases h : es.lookup name with
  | some child => exact ⟨listable, _, congrArg some (put_of_lookup_eq_some h)⟩
  | none => exact ⟨listable, _, congrArg some (put_of_lookup_eq_none h)⟩

end

theorem HasFolder.exists_eq (h : e.HasFolder []) : ∃ listable es, e = folder listable es := by
  obtain ⟨listable, es, h⟩ := h
  exact ⟨listable, es, Option.some.inj h⟩

/-- Folders stay folders where an entry is put at a way at which there is none. -/
theorem HasFolder.put (h : e.HasFolder q) (hway : ¬e.HasFolder way) :
    (e.put way new).HasFolder q := by
  induction q generalizing e way with
  | nil =>
    cases way with
    | nil => exact absurd h hway
    | cons name way =>
      obtain ⟨listable, es, rfl⟩ := h.exists_eq
      exact hasFolder_nil_put_cons
  | cons key q ih =>
    cases way with
    | nil => exact absurd h.root hway
    | cons name way =>
      obtain ⟨listable, es, rfl⟩ := h.root.exists_eq
      obtain ⟨child, hchild, hq⟩ := hasFolder_cons.1 h
      rw [hasFolder_cons, lookup_put]
      by_cases hkey : key = name
      · subst hkey
        have hbelow : ¬child.HasFolder way := fun hfolder =>
          hway (hasFolder_cons.2 ⟨child, hchild, hfolder⟩)
        rw [entries] at hchild
        exact ⟨child.put way new, by rw [if_pos rfl, hchild]; rfl, ih hq hbelow⟩
      · exact ⟨child, by rw [if_neg hkey]; exact hchild, hq⟩

/-- What is put into a folder is found there. -/
theorem at?_put_self (h : e.HasFolder way) :
    (e.put (way ++ [name]) new).at? (way ++ [name]) = some new := by
  induction way generalizing e with
  | nil =>
    obtain ⟨listable, es, rfl⟩ := h.exists_eq
    rw [List.nil_append, at?_cons, lookup_put, if_pos rfl]
    rfl
  | cons key way ih =>
    obtain ⟨listable, es, rfl⟩ := h.root.exists_eq
    obtain ⟨child, hchild, hway⟩ := hasFolder_cons.1 h
    rw [entries] at hchild
    rw [List.cons_append, at?_cons, lookup_put, if_pos rfl, hchild]
    exact ih hway

/-- What is no folder stays as it is where an entry is put beside it. -/
theorem at?_put_of_ne (h : e.HasFolder way) (hnew : ¬e.HasFolder (way ++ [name]))
    (hfound : e.at? q = some found) (hq : ¬e.HasFolder q) (hne : q ≠ way ++ [name]) :
    (e.put (way ++ [name]) new).at? q = some found := by
  induction way generalizing e q with
  | nil =>
    obtain ⟨listable, es, rfl⟩ := h.exists_eq
    cases q with
    | nil => exact absurd h hq
    | cons key q =>
      rw [List.nil_append, at?_cons, lookup_put]
      by_cases hkey : key = name
      · -- Nothing is found below the way, since there is no folder at its end.
        subst hkey
        cases q with
        | nil => exact absurd rfl hne
        | cons next q =>
          have hbehind : (folder listable es).at? ([key] ++ next :: q) = some found := hfound
          exact absurd (hasFolder_of_at?_append hbehind) hnew
      · rw [if_neg hkey]
        exact hfound
  | cons step way ih =>
    obtain ⟨listable, es, rfl⟩ := h.root.exists_eq
    cases q with
    | nil => exact absurd h.root hq
    | cons key q =>
      rw [List.cons_append, at?_cons, lookup_put]
      by_cases hkey : key = step
      · subst hkey
        obtain ⟨child, hchild, hway⟩ := hasFolder_cons.1 h
        rw [at?_cons, hchild] at hfound
        rw [entries] at hchild
        rw [if_pos rfl, hchild]
        refine ih hway ?_ hfound ?_ ?_
        · exact fun hfolder => hnew (hasFolder_cons.2 ⟨child, hchild, hfolder⟩)
        · exact fun hfolder => hq (hasFolder_cons.2 ⟨child, hchild, hfolder⟩)
        · exact fun heq => hne (congrArg (key :: ·) heq)
      · rw [if_neg hkey]
        exact hfound

/-- What was put before does not count. -/
theorem put_put {last : Entry} : (e.put way new).put way last = e.put way last := by
  induction way generalizing e with
  | nil => rfl
  | cons name way ih =>
    cases e with
    | file content => rfl
    | link target => rfl
    | folder listable es =>
      cases h : es.lookup name with
      | some child =>
        have hput : (es.map fun m => if m.1 = name then (name, child.put way new) else m).lookup
            name = some (child.put way new) := by
          rw [lookup_map_replace, if_pos rfl, h]
          rfl
        rw [put_of_lookup_eq_some h, put_of_lookup_eq_some hput, put_of_lookup_eq_some h,
          List.map_map, ih]
        refine congrArg (folder listable) (List.map_congr_left fun m _ => ?_)
        by_cases hm : m.1 = name <;> simp [hm]
      | none =>
        have hput : (es ++ [(name, (folder true []).put way new)]).lookup name =
            some ((folder true []).put way new) := by
          simp [List.lookup_append, h]
        have hkept : (es.map fun m =>
            if m.1 = name then (name, (folder true []).put way last) else m) = es := by
          refine (List.map_congr_left fun m hm => if_neg ?_).trans (List.map_id es)
          rintro rfl
          simpa using List.lookup_eq_none_iff.1 h m hm
        rw [put_of_lookup_eq_none h, put_of_lookup_eq_some hput, put_of_lookup_eq_none h,
          List.map_append, ih, hkept]
        simp

end Entry

namespace Workspace

variable {root : Entry} {links : Nat} {way parts : List Text} {l : Located} {content : Bytes}

/-- A path leads to what is at the end of its way. -/
theorem entry_of_locateFrom {lookup : Lookup} (h : locateFrom root lookup links way parts = .ok l) :
    l.entry = root.at? l.way := by
  fun_induction locateFrom root lookup links way parts with
  | case1 => cases h; rfl
  | case2 | case3 | case8 | case13 =>
    rename_i ih
    exact ih h
  | case6 | case9 | case11 =>
    cases h
    simp [*]
  | case4 | case5 | case7 | case10 | case12 => cases h

/-- A file can be made at the end of a way: it leads into a folder, to a file or to nothing. -/
structure IsSpot (root : Entry) (way : List Text) : Prop where
  exists_folder : ∃ dir name, way = dir ++ [name] ∧ root.HasFolder dir
  entry : root.at? way = none ∨ ∃ content, root.at? way = some (.file content)

/-- The empty way leads to the tree itself. -/
theorem hasFolder_start {target : Text} (h : root.HasFolder way) :
    root.HasFolder (if (Path.rootOf target).isEmpty then way else []) := by
  split
  · exact h
  · exact h.root

/-- Where a file is made, one can be made. -/
theorem isSpot_of_locateFrom (hway : root.HasFolder way)
    (h : locateFrom root .made links way parts = .ok l) (hl : ¬root.HasFolder l.way) :
    IsSpot root l.way := by
  fun_induction locateFrom root .made links way parts with
  | case1 links way =>
    cases h
    exact absurd hway hl
  | case2 links way name rest _ ih => exact ih hway h
  | case3 links way rest _ ih => exact ih hway.dropLast h
  | case6 links way name rest _ _ _ _ hentry _ =>
    cases h
    exact ⟨⟨way, name, rfl, hway⟩, .inl hentry⟩
  | case8 links way name rest _ _ _ _ listable es hentry ih => exact ih ⟨_, _, hentry⟩ h
  | case9 links way name rest _ _ _ _ content hentry _ =>
    cases h
    exact ⟨⟨way, name, rfl, hway⟩, .inr ⟨content, hentry⟩⟩
  | case11 links way name rest _ _ _ _ target hentry hbare => simp at hbare
  | case13 way name rest _ _ _ _ target hentry _ links ih =>
    exact ih (hasFolder_start hway) h
  | case4 | case5 | case7 | case10 | case12 => cases h

/-- A path leads to the file that was made at its end. -/
theorem locateFrom_put (hway : root.HasFolder way)
    (h : locateFrom root .made links way parts = .ok l) (hl : IsSpot root l.way) :
    locateFrom (root.put l.way (.file content)) .followed links way parts =
      .ok ⟨l.way, some (.file content)⟩ := by
  obtain ⟨⟨dir, last, hend, hdir⟩, hentry⟩ := hl
  have hnew : ¬root.HasFolder l.way := by
    rintro ⟨listable, es, hfolder⟩
    rw [hfolder] at hentry
    simp at hentry
  have hself : (root.put l.way (.file content)).at? l.way = some (.file content) := by
    rw [hend]
    exact Entry.at?_put_self hdir
  -- The trees differ at the end of the way only, so each step but the last finds what it found.
  fun_induction locateFrom root .made links way parts with
  | case1 links way =>
    cases h
    exact absurd hway hnew
  | case2 links way name rest hname ih =>
    rw [locateFrom, if_pos hname]
    exact ih hway h
  | case3 links way rest hname ih =>
    rw [locateFrom, if_neg hname, if_pos rfl]
    exact ih hway.dropLast h
  | case6 links way name rest hname hparent hmade hlong hentry' hlast =>
    cases h
    rw [locateFrom, if_neg hname, if_neg hparent, if_neg (by simp), if_neg hlong, hself]
    simp [hlast]
  | case8 links way name rest hname hparent hmade hlong listable es hfolder ih =>
    have hfolder : root.HasFolder (way ++ [name]) := ⟨listable, es, hfolder⟩
    obtain ⟨listable', es', hkept⟩ := hfolder.put hnew
    rw [locateFrom, if_neg hname, if_neg hparent, if_neg (by simp), if_neg hlong, hkept]
    exact ih hfolder h
  | case9 links way name rest hname hparent hmade hlong old hold hlast =>
    cases h
    rw [locateFrom, if_neg hname, if_neg hparent, if_neg (by simp), if_neg hlong, hself]
    simp [hlast]
  | case11 links way name rest _ _ _ _ target hentry hbare => simp at hbare
  | case13 way name rest hname hparent hmade hlong target hlink _ links ih =>
    have hother : way ++ [name] ≠ l.way := by
      intro heq
      rw [← heq, hlink] at hentry
      simp at hentry
    have hkept : (root.put l.way (.file content)).at? (way ++ [name]) = some (.link target) := by
      rw [hend] at hnew hother ⊢
      refine Entry.at?_put_of_ne hdir hnew hlink ?_ hother
      rintro ⟨listable, es, hfolder⟩
      rw [hfolder] at hlink
      cases hlink
    rw [locateFrom, if_neg hname, if_neg hparent, if_neg (by simp), if_neg hlong, hkept]
    simp only [reduceCtorEq, decide_false, Bool.and_false, Bool.false_eq_true, if_false]
    exact ih (hasFolder_start hway) h
  | case4 | case5 | case7 | case10 | case12 => cases h

/-! ## Writing -/

variable {w w' : Workspace} {access : Access} {p : Path}

/-- The working folder is there. -/
def HasHome (w : Workspace) : Prop := w.root.HasFolder w.home

theorem locate_eq_ok {lookup : Lookup} :
    w.locate lookup p = .ok l ↔ misspelled? p.text = none ∧
      locateFrom w.root lookup maxLinks (if p.root.isEmpty then w.home else []) p.parts =
        .ok l := by
  unfold locate
  cases misspelled? p.text <;> simp

theorem entry_of_locate {lookup : Lookup} (h : w.locate lookup p = .ok l) :
    l.entry = w.root.at? l.way :=
  entry_of_locateFrom (locate_eq_ok.1 h).2

theorem HasHome.makeFolder (hw : w.HasHome) (h : w.makeFolder access p = .ok w') :
    w'.HasHome := by
  unfold Workspace.makeFolder at h
  split at h
  · cases h
  · rename_i l hl
    split at h
    · cases h
    · rename_i hentry
      split at h
      · cases h
      · cases h
        rw [entry_of_locate hl] at hentry
        refine hw.put ?_
        rintro ⟨listable, es, hfolder⟩
        rw [hentry] at hfolder
        cases hfolder

theorem HasHome.ensureFolder (hw : w.HasHome) (h : w.ensureFolder access p = .ok w') :
    w'.HasHome := by
  unfold Workspace.ensureFolder at h
  split at h
  · rename_i made hmade
    cases h
    exact hw.makeFolder hmade
  · cases h
  · unfold settleFolder at h
    split at h
    · cases h
      exact hw
    · cases h

theorem HasHome.ensureFolders (hw : w.HasHome) : (w.ensureFolders access p).2.HasHome := by
  fun_induction Workspace.ensureFolders w access p with
  | case1 p made hmade => exact hw.makeFolder hmade
  | case2 p _ _ _ _ made hparents folder hfolder ih =>
    rw [hparents] at ih
    exact HasHome.ensureFolder ih hfolder
  | case3 p _ _ _ _ made hparents f _ ih =>
    rw [hparents] at ih
    exact ih
  | case4 p _ _ _ _ _ ih => exact ih
  | case5 => exact hw
  | case6 => exact hw

theorem HasHome.hasFolder_start (hw : w.HasHome) :
    w.root.HasFolder (if p.root.isEmpty then w.home else []) := by
  split
  · exact hw
  · exact hw.root

/-- What a file that was opened is filled with is read from it. -/
theorem read_fill (hw : w.HasHome) (h : w.create access p = .ok (way, w')) :
    (w'.fill way content).read p = .ok content := by
  unfold create at h
  split at h
  · cases h
  · rename_i l hl
    have hentry := entry_of_locate hl
    split at h
    · cases h
    · rename_i hfile
      split at h
      · cases h
      · cases h
        have hnew : ¬w.root.HasFolder l.way := by
          rintro ⟨listable, es, hfolder⟩
          exact hfile listable es (hentry.trans hfolder)
        obtain ⟨hspelled, hfrom⟩ := locate_eq_ok.1 hl
        have hspot := isSpot_of_locateFrom hw.hasFolder_start hfrom hnew
        have hfound : ({ w with root := w.root.put l.way (.file content) } : Workspace).locate
            .followed p = .ok ⟨l.way, some (.file content)⟩ :=
          locate_eq_ok.2 ⟨hspelled, locateFrom_put hw.hasFolder_start hfrom hspot⟩
        simp only [read, fill, Entry.put_put, hfound]

end Workspace

/-! ## Room -/

namespace Access

variable {access : Access} {way : List Text} {content : Bytes}

/-- There is room for all of a content in the file at a way. -/
def HasRoom (access : Access) (way : List Text) (content : Bytes) : Prop :=
  ∀ n ∈ access.room? way, content.length ≤ n

theorem hasRoom_of_unbounded (h : access.room? way = none) : access.HasRoom way content := by
  simp [HasRoom, h]

theorem kept_of_hasRoom (h : access.HasRoom way content) : access.kept way content = content := by
  unfold kept
  split
  · rfl
  · rename_i n hroom
    exact List.take_of_length_le (h n hroom)

/-- Less is kept exactly if there is no room for all of it. -/
theorem length_kept_lt_iff :
    (access.kept way content).length < content.length ↔ ¬access.HasRoom way content := by
  constructor
  · intro hlt hroom
    rw [kept_of_hasRoom hroom] at hlt
    exact Nat.lt_irrefl _ hlt
  · intro h
    obtain ⟨n, hn, hlong⟩ : ∃ n, access.room? way = some n ∧ n < content.length := by
      simpa [HasRoom] using h
    rw [kept, hn, List.length_take]
    exact Nat.lt_of_le_of_lt (Nat.min_le_left _ _) hlong

end Access

end CodeCatalog
