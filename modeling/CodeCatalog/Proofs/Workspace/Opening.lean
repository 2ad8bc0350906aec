import CodeCatalog.Proofs.Text.Lines
import CodeCatalog.Proofs.Workspace.Put
import CodeCatalog.Proofs.Workspace.Tree
import CodeCatalog.Workspace.IndexFile
set_option autoImplicit false

/-!
# Opening a file that is there

Where a file is, it is the one that is opened for writing: the path leads to it whether or not one
is to be made, and the folder above it is there, so none is made.  What is left is whether the
system lets it be opened.
-/

namespace CodeCatalog.Workspace

variable {root : Entry} {lookup : Lookup} {links : Nat} {way parts rest : List Text} {name : Text}
  {l : Located}

/-! ## Components that ask for a folder -/

/-- There is no component but an empty one at the end. -/
def EndsOpen (parts : List Text) : Prop := ∀ t ∈ parts.getLast?, t = []

theorem EndsOpen.tail (h : EndsOpen (name :: rest)) : EndsOpen rest := by
  intro t ht
  refine h t ?_
  rw [List.getLast?_cons, Option.mem_def.1 ht]
  rfl

/-- A component with a name is not the last one. -/
theorem EndsOpen.ne_nil (h : EndsOpen (name :: rest))
    (hname : ¬(name.isEmpty || name = ".") = true) : rest ≠ [] := by
  rintro rfl
  obtain rfl := h name rfl
  exact hname rfl

theorem EndsOpen.append (h : EndsOpen rest) (hrest : rest ≠ []) : EndsOpen (parts ++ rest) := by
  rwa [EndsOpen, List.getLast?_append_of_ne_nil _ hrest]

/-- A path with an empty component at its end leads to a folder. -/
theorem EndsOpen.hasFolder (hopen : EndsOpen parts) (hway : root.HasFolder way)
    (h : locateFrom root lookup links way parts = .ok l) : root.HasFolder l.way := by
  fun_induction locateFrom root lookup links way parts with
  | case1 =>
    cases h
    exact hway
  | case2 links way name rest _ ih => exact ih hopen.tail hway h
  | case3 links way rest _ ih => exact ih hopen.tail hway.dropLast h
  | case8 links way name rest _ _ _ _ listable es hfolder ih =>
    exact ih hopen.tail ⟨listable, es, hfolder⟩ h
  | case13 way name rest hname _ _ _ target _ _ links ih =>
    exact ih (hopen.tail.append (hopen.ne_nil hname)) (hasFolder_start hway) h
  | case6 links way name rest hname _ _ _ _ hempty
  | case9 links way name rest hname _ _ _ content _ hempty =>
    exact absurd (List.isEmpty_iff.1 hempty) (hopen.ne_nil hname)
  | case11 links way name rest hname _ _ _ target _ hbare =>
    exact absurd (List.isEmpty_iff.1 (Bool.and_eq_true_iff.1 hbare).1) (hopen.ne_nil hname)
  | case4 | case5 | case7 | case10 | case12 => cases h

theorem endsOpen_nil_singleton : EndsOpen [[]] := by simp [EndsOpen]

/-! ## The same place by another look -/

/-- What a component that is a name leads to, unless it asks for a folder where a file is to be
made. -/
theorem locateFrom_name (lookup : Lookup) (hname : ¬(name.isEmpty || name = ".") = true)
    (hparent : ¬name = parentPart) (hmade : lookup ≠ .made ∨ rest ≠ [[]])
    (hlong : ¬maxNameBytes < byteCount name) :
    locateFrom root lookup links way (name :: rest) =
      match root.at? (way ++ [name]) with
      | none => if rest.isEmpty then .ok ⟨way ++ [name], none⟩ else .error .notFound
      | some (.folder _ _) => locateFrom root lookup links (way ++ [name]) rest
      | some (.file content) =>
        if rest.isEmpty then .ok ⟨way ++ [name], some (.file content)⟩
        else .error .notDirectory
      | some (.link target) =>
        if rest.isEmpty && lookup = .bare then .ok ⟨way ++ [name], some (.link target)⟩
        else
          match links with
          | 0 => .error .tooManyLinks
          | links + 1 =>
            locateFrom root lookup links (if (Path.rootOf target).isEmpty then way else [])
              (Path.targetParts target ++ rest) := by
  have hopen : ¬(lookup = .made && rest = [[]]) = true := by
    rw [Bool.and_eq_true_iff, decide_eq_true_eq, decide_eq_true_eq]
    exact not_and_or.2 hmade
  rw [locateFrom.eq_def]
  exact (if_neg hname).trans ((if_neg hparent).trans ((if_neg hopen).trans (if_neg hlong)))

/-- A link is followed, unless it is to be found itself. -/
theorem locateFrom_link (lookup : Lookup) (hlookup : lookup ≠ .bare)
    (hname : ¬(name.isEmpty || name = ".") = true) (hparent : ¬name = parentPart)
    (hmade : lookup ≠ .made ∨ rest ≠ [[]]) (hlong : ¬maxNameBytes < byteCount name) {target : Text}
    (hlink : root.at? (way ++ [name]) = some (.link target)) :
    locateFrom root lookup links way (name :: rest) =
      match links with
      | 0 => .error .tooManyLinks
      | links + 1 =>
        locateFrom root lookup links (if (Path.rootOf target).isEmpty then way else [])
          (Path.targetParts target ++ rest) := by
  have hfollowed : ¬(rest.isEmpty && lookup = .bare) = true := by simp [hlookup]
  simp only [locateFrom_name lookup hname hparent hmade hlong, hlink, if_neg hfollowed]

/-- Where a path leads to what is no folder, it leads as well when a file is to be made. -/
theorem locateFrom_made (hway : root.HasFolder way)
    (h : locateFrom root .followed links way parts = .ok l) (hl : ¬root.HasFolder l.way) :
    locateFrom root .made links way parts = .ok l := by
  -- Only a component that asks for a folder is refused where a file is to be made, and behind such
  -- a component there is a folder.
  fun_induction locateFrom root .followed links way parts with
  | case1 =>
    cases h
    exact absurd hway hl
  | case2 links way name rest hname ih =>
    rw [locateFrom, if_pos hname]
    exact ih hway h
  | case3 links way rest hname ih =>
    rw [locateFrom, if_neg hname, if_pos rfl]
    exact ih hway.dropLast h
  | case6 links way name rest hname hparent _ hlong hnone hlast =>
    have hrest : rest ≠ [[]] := fun heq => by simp [heq] at hlast
    simp only [locateFrom_name .made hname hparent (.inr hrest) hlong, hnone, if_pos hlast, h]
  | case8 links way name rest hname hparent _ hlong listable es hfolder ih =>
    have hrest : rest ≠ [[]] := by
      rintro rfl
      exact hl (endsOpen_nil_singleton.hasFolder ⟨listable, es, hfolder⟩ h)
    simp only [locateFrom_name .made hname hparent (.inr hrest) hlong, hfolder]
    exact ih ⟨listable, es, hfolder⟩ h
  | case9 links way name rest hname hparent _ hlong content hfile hlast =>
    have hrest : rest ≠ [[]] := fun heq => by simp [heq] at hlast
    simp only [locateFrom_name .made hname hparent (.inr hrest) hlong, hfile, if_pos hlast, h]
  | case13 way name rest hname hparent _ hlong target hlink _ links ih =>
    have hrest : rest ≠ [[]] := by
      rintro rfl
      have hopen : EndsOpen (Path.targetParts target ++ [[]]) :=
        endsOpen_nil_singleton.append (List.cons_ne_nil _ _)
      exact hl (hopen.hasFolder (hasFolder_start hway) h)
    rw [locateFrom_link .made (by decide) hname hparent (.inr hrest) hlong hlink]
    exact ih (hasFolder_start hway) h
  | case11 links way name rest _ _ _ _ target _ hbare => simp at hbare
  | case4 | case5 | case7 | case10 | case12 => cases h

/-- Where a path leads to something, there is something before its last link is followed. -/
theorem exists_locateFrom_bare (h : locateFrom root .followed links way parts = .ok l)
    (hl : l.entry.isSome) :
    ∃ l', locateFrom root .bare links way parts = .ok l' ∧ l'.entry.isSome := by
  fun_induction locateFrom root .followed links way parts with
  | case1 links way =>
    cases h
    exact ⟨_, by rw [locateFrom], hl⟩
  | case2 links way name rest hname ih =>
    rw [locateFrom, if_pos hname]
    exact ih h
  | case3 links way rest hname ih =>
    rw [locateFrom, if_neg hname, if_pos rfl]
    exact ih h
  | case6 =>
    cases h
    cases hl
  | case8 links way name rest hname hparent _ hlong listable es hfolder ih =>
    simp only [locateFrom_name .bare hname hparent (.inl (by decide)) hlong, hfolder]
    exact ih h
  | case9 links way name rest hname hparent _ hlong content hfile hlast =>
    simp only [locateFrom_name .bare hname hparent (.inl (by decide)) hlong, hfile, if_pos hlast]
    exact ⟨_, rfl, rfl⟩
  | case13 way name rest hname hparent _ hlong target hlink _ links ih =>
    simp only [locateFrom_name .bare hname hparent (.inl (by decide)) hlong, hlink]
    split
    · exact ⟨_, rfl, rfl⟩
    · exact ih h
  | case11 links way name rest _ _ _ _ target _ hbare => simp at hbare
  | case4 | case5 | case7 | case10 | case12 => cases h

/-- A path that goes on behind some components leads through a folder at their end. -/
theorem exists_hasFolder_of_append (hway : root.HasFolder way) (hrest : rest ≠ [])
    (h : locateFrom root .followed links way (parts ++ rest) = .ok l) :
    ∃ l', locateFrom root .followed links way parts = .ok l' ∧ root.HasFolder l'.way := by
  have hmade : Lookup.followed ≠ .made := by decide
  have hbehind : ∀ parts : List Text, ¬(parts ++ rest).isEmpty = true := by simp [hrest]
  fun_induction locateFrom root .followed links way parts with
  | case1 links way => exact ⟨_, rfl, hway⟩
  | case2 links way name parts hname ih =>
    rw [List.cons_append, locateFrom, if_pos hname] at h
    exact ih hway h
  | case3 links way parts hname ih =>
    rw [List.cons_append, locateFrom, if_neg hname, if_pos rfl] at h
    exact ih hway.dropLast h
  | case8 links way name parts hname hparent _ hlong listable es hfolder ih =>
    simp only [List.cons_append, locateFrom_name .followed hname hparent (.inl hmade) hlong,
      hfolder] at h
    exact ih ⟨listable, es, hfolder⟩ h
  | case13 way name parts hname hparent _ hlong target hlink _ links ih =>
    rw [List.cons_append, locateFrom_link .followed (by decide) hname hparent (.inl hmade) hlong
      hlink] at h
    exact ih (hasFolder_start hway) (by rw [List.append_assoc]; exact h)
  | case5 links way name parts hname hparent _ hlong =>
    rw [List.cons_append, locateFrom, if_neg hname, if_neg hparent, if_neg (by simp),
      if_pos hlong] at h
    cases h
  | case6 links way name parts hname hparent _ hlong hentry
  | case7 links way name parts hname hparent _ hlong hentry
  | case9 links way name parts hname hparent _ hlong _ hentry
  | case10 links way name parts hname hparent _ hlong _ hentry =>
    simp only [List.cons_append, locateFrom_name .followed hname hparent (.inl hmade) hlong, hentry,
      if_neg (hbehind parts)] at h
    cases h
  | case12 way name parts hname hparent _ hlong target hlink =>
    rw [List.cons_append, locateFrom_link .followed (by decide) hname hparent (.inl hmade) hlong
      hlink] at h
    cases h
  | case11 links way name parts _ _ _ _ target _ hbare => simp at hbare
  | case4 links way name parts _ _ hopen => simp at hopen

/-! ## Spellings -/

theorem misspelled?_eq_none {t : Text} :
    misspelled? t = none ↔ t.IsSpellable ∧ byteCount t ≤ maxPathBytes := by
  rw [Text.isSpellable_iff, misspelled?]
  cases unencodableFrom? 0 t with
  | some u => simp
  | none =>
    by_cases hzero : .scalar '\x00' ∈ t <;> simp [hzero]

theorem byteCount_le_append (t u : Text) : byteCount t ≤ byteCount (t ++ u) := by
  rw [byteCount, byteCount, List.foldl_append]
  generalize List.foldl _ 0 t = n
  induction u generalizing n with
  | nil => exact Nat.le_refl n
  | cons g u ih => exact Nat.le_trans (Nat.le_add_right n _) (ih _)

/-- What a path can be spelled like, it can be cut off anywhere. -/
theorem misspelled?_of_isPrefix {t u : Text} (htu : t <+: u) (h : misspelled? u = none) :
    misspelled? t = none := by
  obtain ⟨hspell, hlong⟩ := misspelled?_eq_none.1 h
  obtain ⟨v, rfl⟩ := htu
  exact misspelled?_eq_none.2 ⟨fun g hg => hspell g (List.mem_append_left v hg),
    Nat.le_trans (byteCount_le_append t v) hlong⟩

theorem isPrefix_joinWith_dropLast {sep : Text} (parts : List Text) :
    Text.joinWith sep parts.dropLast <+: Text.joinWith sep parts := by
  rcases List.eq_nil_or_concat parts with rfl | ⟨init, last, rfl⟩
  · exact List.prefix_rfl
  · rw [List.concat_eq_append, List.dropLast_concat]
    by_cases hinit : init = []
    · rw [hinit]
      exact List.nil_prefix
    · rw [Text.joinWith_append hinit (List.cons_ne_nil last []), List.append_assoc]
      exact List.prefix_append _ _

variable {w : Workspace} {access : Access} {p : Path}

/-- The path of a folder that is not the working folder is spelled like the front of the path of
what is in it. -/
theorem isPrefix_text_parent (hp : ¬(p.parent.root.isEmpty && p.parent.parts.isEmpty) = true) :
    p.parent.text <+: p.text := by
  have hwhole : ¬(p.root.isEmpty && p.parts.isEmpty) = true := by
    intro hempty
    obtain ⟨hroot, hparts⟩ := Bool.and_eq_true_iff.1 hempty
    refine hp (Bool.and_eq_true_iff.2 ⟨hroot, ?_⟩)
    simp [Path.parent, List.isEmpty_iff.1 hparts]
  rw [Path.text, Path.text, if_neg hp, if_neg hwhole]
  exact (List.prefix_append_right_inj _).2 (isPrefix_joinWith_dropLast p.parts)

/-! ## Opening -/

/-- What leads to no folder leads through the folder above it. -/
theorem exists_hasFolder_parent (hw : w.HasHome) (h : w.locate .followed p = .ok l)
    (hl : ¬w.root.HasFolder l.way)
    (hp : ¬(p.parent.root.isEmpty && p.parent.parts.isEmpty) = true) :
    ∃ l', w.locate .followed p.parent = .ok l' ∧ w.root.HasFolder l'.way := by
  obtain ⟨hspelled, hfrom⟩ := locate_eq_ok.1 h
  rcases List.eq_nil_or_concat p.parts with hparts | ⟨init, last, hparts⟩
  · rw [hparts, locateFrom] at hfrom
    cases hfrom
    exact absurd hw.hasFolder_start hl
  · rw [List.concat_eq_append] at hparts
    rw [hparts] at hfrom
    obtain ⟨l', hl', hfolder⟩ :=
      exists_hasFolder_of_append hw.hasFolder_start (List.cons_ne_nil last []) hfrom
    have hinit : p.parent.parts = init := by simp [Path.parent, hparts]
    have hparent : misspelled? p.parent.text = none :=
      misspelled?_of_isPrefix (isPrefix_text_parent hp) hspelled
    refine ⟨l', locate_eq_ok.2 ⟨hparent, ?_⟩, hfolder⟩
    rw [hinit]
    exact hl'

/-- No folder is made where there is one. -/
theorem ensureFolders_of_hasFolder (h : w.locate .followed p = .ok l)
    (hl : w.root.HasFolder l.way) : w.ensureFolders access p = (.ok (), w) := by
  obtain ⟨listable, es, hfolder⟩ := hl
  have hentry : l.entry = some (.folder listable es) := (entry_of_locate h).trans hfolder
  obtain ⟨hspelled, hfrom⟩ := locate_eq_ok.1 h
  obtain ⟨l', hbare, hsome⟩ := exists_locateFrom_bare hfrom (by rw [hentry]; rfl)
  obtain ⟨there, hthere⟩ := Option.isSome_iff_exists.1 hsome
  have hmake : w.makeFolder access p = .error .exists := by
    simp only [makeFolder, locate_eq_ok.2 ⟨hspelled, hbare⟩, hthere]
  have hsettle : w.settleFolder p .exists = .ok w := by
    simp only [settleFolder, isFolder, entry?, h, hentry, Except.map]
  unfold Workspace.ensureFolders
  split
  case h_4 hcause _ _ =>
    rw [hmake] at hcause
    cases hcause
    rw [hsettle]
    rfl
  all_goals cases hmake.symm.trans ‹w.makeFolder access p = _›

variable {old : Bytes} {c : FileCause}

/-- Where a file can be read, it is the one that is opened for writing, and no folder is missing. -/
theorem exists_way_of_read (hw : w.HasHome) (h : w.read p = .ok old) (access : Access) :
    ∃ way, w.locate .followed p = .ok ⟨way, some (.file old)⟩ ∧
      w.locate .made p = .ok ⟨way, some (.file old)⟩ ∧
      IndexFile.prepareFolder p access w = (.ok (), w) := by
  obtain ⟨way, hfound⟩ : ∃ way, w.locate .followed p = .ok ⟨way, some (.file old)⟩ := by
    unfold read at h
    split at h
    · cases h
    · rename_i l hl
      split at h
      · rename_i content hcontent
        cases h
        exact ⟨l.way, by rw [hl, ← hcontent]⟩
      · cases h
      · cases h
  have hfile : ¬w.root.HasFolder way := by
    rintro ⟨listable, es, hfolder⟩
    cases (entry_of_locate hfound).trans hfolder
  refine ⟨way, hfound, ?_, ?_⟩
  · obtain ⟨hspelled, hfrom⟩ := locate_eq_ok.1 hfound
    exact locate_eq_ok.2 ⟨hspelled, locateFrom_made hw.hasFolder_start hfrom hfile⟩
  · unfold IndexFile.prepareFolder
    split
    · rfl
    · rename_i hparent
      obtain ⟨l', hl', hfolder⟩ := exists_hasFolder_parent hw hfound hfile hparent
      exact ensureFolders_of_hasFolder hl' hfolder

theorem create_of_refusal (h : w.locate .made p = .ok ⟨way, some (.file old)⟩)
    (hrefused : access.refusal? way = some c) : w.create access p = .error ⟨c, p.text⟩ := by
  simp only [create, h, hrefused]

/-- A file that the system lets be opened is emptied where it is. -/
theorem exists_create_of_no_refusal (h : w.locate .made p = .ok ⟨way, some (.file old)⟩)
    (hallowed : access.refusal? way = none) :
    ∃ opened, w.create access p = .ok (way, opened) :=
  ⟨_, by simp only [create, h, hallowed]; rfl⟩

end CodeCatalog.Workspace
