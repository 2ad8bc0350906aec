import CodeCatalog.Proofs.Workspace.Walk
import Mathlib.Data.List.Nodup
set_option autoImplicit false

/-!
# Files by the ends of their paths

A search for a partial path looks into each folder for a file of the last name alone, and compares
the whole path where there is one.  That is as good as to compare the paths of all files: two files
with the ending are in different folders, so that the search meets both of them.  What it passes
over are the folders that cannot be listed, with all the files in them.
-/

namespace CodeCatalog

open Workspace (extended allParts)

/-! ## Files below a folder -/

/-- Every folder on a way, the one where it starts among them, can be listed. -/
def Entry.IsOpen (folder : Entry) (dirs : List Text) : Prop :=
  ∀ front, front <+: dirs → ∃ es, folder.at? front = some (.folder true es)

namespace Workspace

/-- A file below the folder at `base`: an entry that is no folder and leads to none, reached through
folders that are entered. -/
structure IsFileBelow (w : Workspace) (base : List Text) (folder : Entry) (dirs : List Text)
    (name : Text) : Prop where
  entered : ∀ dir ∈ dirs, IsEntered usualExcluded dir
  isFile : ∃ e, folder.at? (dirs ++ [name]) = some e ∧
    w.leadsToFolder (base ++ (dirs ++ [name])) e = false

/-- At the end of a way below the folder at a path is a file, and its path ends in the components of
a partial path. -/
def HasEnding (w : Workspace) (root : Path) (suffix : Text) (way : List Text) : Prop :=
  ∃ base folder dirs name, w.locate .followed root = .ok ⟨base, some folder⟩ ∧
    way = dirs ++ [name] ∧ w.IsFileBelow base folder dirs name ∧
    allParts (Path.parse suffix) <:+ allParts (extended root way)

/-- The folders in which a way below the folder at a path goes on can be listed. -/
def IsOpenTo (w : Workspace) (root : Path) (way : List Text) : Prop :=
  ∃ base folder, w.locate .followed root = .ok ⟨base, some folder⟩ ∧ folder.IsOpen way.dropLast

/-- A search for a partial path comes to the file at the end of a way. -/
structure Resolves (w : Workspace) (root : Path) (suffix : Text) (way : List Text) : Prop where
  hasEnding : w.HasEnding root suffix way
  isOpenTo : w.IsOpenTo root way

end Workspace

section Ways

variable {w : Workspace} {base : List Text} {listable : Bool} {es : List (Text × Entry)}
  {d name : Text} {dirs : List Text}

/-- A name stands for one entry of a folder. -/
theorem Entry.WellFormed.eq_of_mem {child other : Entry}
    (he : (Entry.folder listable es).WellFormed) (hchild : (d, child) ∈ es)
    (hother : (d, other) ∈ es) : child = other := by
  rw [← he.lookup_eq_some_iff] at hchild hother
  rw [hchild] at hother
  exact Option.some.inj hother

theorem Entry.isOpen_nil : (Entry.folder listable es).IsOpen [] ↔ listable = true := by
  constructor
  · intro h
    obtain ⟨es', hat⟩ := h [] List.nil_prefix
    cases hat
    rfl
  · rintro rfl front hfront
    rw [List.prefix_nil.1 hfront]
    exact ⟨es, rfl⟩

theorem Entry.WellFormed.isOpen_cons (he : (Entry.folder listable es).WellFormed) :
    (Entry.folder listable es).IsOpen (d :: dirs) ↔
      listable = true ∧ ∃ child, (d, child) ∈ es ∧ child.IsOpen dirs := by
  constructor
  · intro h
    refine ⟨Entry.isOpen_nil.1 fun front hfront => h front (hfront.trans List.nil_prefix), ?_⟩
    obtain ⟨_, hat⟩ := h [d] (List.prefix_append [d] dirs)
    obtain ⟨child, hmem, -⟩ := he.at?_cons.1 hat
    refine ⟨child, hmem, fun front hfront => ?_⟩
    obtain ⟨inner, hat⟩ := h (d :: front) (List.cons_prefix_cons.2 ⟨rfl, hfront⟩)
    obtain ⟨child', hmem', hchild⟩ := he.at?_cons.1 hat
    obtain rfl := he.eq_of_mem hmem hmem'
    exact ⟨inner, hchild⟩
  · rintro ⟨hlistable, child, hmem, hchild⟩ front hfront
    cases front with
    | nil => exact Entry.isOpen_nil.2 hlistable [] List.nil_prefix
    | cons d' front =>
      obtain ⟨rfl, hfront'⟩ := List.cons_prefix_cons.1 hfront
      obtain ⟨inner, hat⟩ := hchild front hfront'
      exact ⟨inner, he.at?_cons.2 ⟨child, hmem, hat⟩⟩

namespace Workspace

/-- A file directly in a folder that is listed. -/
theorem isFileBelow_nil (he : (Entry.folder listable es).WellFormed) :
    w.IsFileBelow base (.folder listable es) [] name ↔
      ∃ e, (name, e) ∈ es ∧ w.leadsToFolder (base ++ [name]) e = false := by
  constructor
  · rintro ⟨-, e, hat, hfile⟩
    obtain ⟨child, hmem, hchild⟩ := he.at?_cons.1 hat
    cases hchild
    exact ⟨_, hmem, hfile⟩
  · rintro ⟨e, hmem, hfile⟩
    exact ⟨by simp, e, he.at?_cons.2 ⟨e, hmem, rfl⟩, hfile⟩

/-- A file further down is one below an entry of the folder. -/
theorem isFileBelow_cons (he : (Entry.folder listable es).WellFormed) :
    w.IsFileBelow base (.folder listable es) (d :: dirs) name ↔
      IsEntered usualExcluded d ∧
        ∃ child, (d, child) ∈ es ∧ w.IsFileBelow (base ++ [d]) child dirs name := by
  have hway : base ++ (d :: dirs ++ [name]) = base ++ [d] ++ (dirs ++ [name]) := by
    simp
  constructor
  · rintro ⟨hentered, e, hat, hfile⟩
    obtain ⟨child, hmem, hchild⟩ := he.at?_cons.1 hat
    obtain ⟨hd, hdirs⟩ := List.forall_mem_cons.1 hentered
    exact ⟨hd, child, hmem, hdirs, e, hchild, hway ▸ hfile⟩
  · rintro ⟨hd, child, hmem, hdirs, e, hchild, hfile⟩
    exact ⟨List.forall_mem_cons.2 ⟨hd, hdirs⟩, e, he.at?_cons.2 ⟨child, hmem, hchild⟩,
      hway ▸ hfile⟩

/-- The entry of the folder is the same for the file and for the folders on the way to it. -/
theorem isFileBelow_cons_and_isOpen (he : (Entry.folder listable es).WellFormed) :
    w.IsFileBelow base (.folder listable es) (d :: dirs) name ∧
        (Entry.folder listable es).IsOpen (d :: dirs) ↔
      listable = true ∧ IsEntered usualExcluded d ∧ ∃ child, (d, child) ∈ es ∧
        w.IsFileBelow (base ++ [d]) child dirs name ∧ child.IsOpen dirs := by
  rw [isFileBelow_cons he, he.isOpen_cons]
  constructor
  · rintro ⟨⟨hd, child, hmem, hfile⟩, hlistable, child', hmem', hopen⟩
    obtain rfl := he.eq_of_mem hmem hmem'
    exact ⟨hlistable, hd, child, hmem, hfile, hopen⟩
  · rintro ⟨hlistable, hd, child, hmem, hfile, hopen⟩
    exact ⟨⟨hd, child, hmem, hfile⟩, hlistable, child, hmem, hopen⟩

end Workspace

end Ways

/-! ## One folder of a search -/

namespace Workspace

variable {w : Workspace} {parts base : List Text} {dir p : Path} {es : List (Text × Entry)}
  {e : Entry} {m : Text × Entry}

theorem allParts_extended (p : Path) (way : List Text) :
    allParts (extended p way) = allParts p ++ way := by
  unfold allParts extended
  split <;> rfl

theorem getLast?_of_suffix {front : List Text} {name : Text} (hparts : parts ≠ [])
    (h : parts <:+ front ++ [name]) : parts.getLast? = some name := by
  rw [List.getLast?_eq_some_getLast hparts, h.getLast hparts, List.getLast_append_singleton]

theorem isEntered_usual_iff {name : Text} :
    IsEntered usualExcluded name ↔ (isHidden name || usualExcluded.contains name) = false := by
  have henters : (FileQuery.ofExtensions [] usualExcluded).enters name = true ↔
      IsEntered usualExcluded name := FileQuery.enters_iff
  rw [← henters, FileQuery.enters, Bool.not_eq_true', Bool.or_comm]
  rfl

/-- What is found directly in a folder: the file of the last name, if its path has the ending. -/
def endingHere (w : Workspace) (parts base : List Text) (dir : Path)
    (es : List (Text × Entry)) : List Path :=
  match parts.getLast? with
  | some name =>
    if es.any (fun m => m.1 == name && !w.leadsToFolder (base ++ [m.1]) m.2)
        && parts.isSuffixOf (allParts (dir.child name)) then [dir.child name]
    else []
  | none => []

/-- What is found below an entry of a folder. -/
def endingBelow (w : Workspace) (parts base : List Text) (dir : Path) (m : Text × Entry) :
    List Path :=
  if isHidden m.1 || usualExcluded.contains m.1 then []
  else w.endingIn parts (base ++ [m.1]) (dir.child m.1) m.2

theorem flatMap_endingInEach :
    (w.endingInEach parts base dir es).flatMap Prod.snd =
      es.flatMap (w.endingBelow parts base dir) := by
  induction es with
  | nil => rw [endingInEach, List.flatMap_nil, List.flatMap_nil]
  | cons m es ih =>
    obtain ⟨name, e⟩ := m
    cases e with
    | folder listable inner =>
      rw [endingInEach, List.flatMap_cons, List.flatMap_cons, ih]
      rfl
    | file | link =>
      rw [endingInEach, List.flatMap_cons, ih]
      · simp [endingBelow, endingIn]
      · simp

/-- Nothing is found in an entry that is no folder or cannot be listed. -/
theorem endingIn_of_not_folder (h : ∀ es, e ≠ .folder true es) :
    w.endingIn parts base dir e = [] := by
  rw [endingIn]
  exact h

theorem endingIn_perm : (w.endingIn parts base dir (.folder true es)).Perm
    (w.endingHere parts base dir es ++ es.flatMap (w.endingBelow parts base dir)) := by
  rw [endingIn, ← flatMap_endingInEach]
  exact .append_left _ ((List.mergeSort_perm _ _).flatMap_right Prod.snd)

/-- A file whose path has the ending has the last name. -/
theorem mem_endingHere (hparts : parts ≠ []) :
    p ∈ w.endingHere parts base dir es ↔
      ∃ name, (∃ e, (name, e) ∈ es ∧ w.leadsToFolder (base ++ [name]) e = false) ∧
        p = extended dir [name] ∧ parts <:+ allParts p := by
  have hlast := List.getLast?_eq_some_getLast hparts
  have hany : ∀ name, es.any (fun m => m.1 == name && !w.leadsToFolder (base ++ [m.1]) m.2) = true ↔
      ∃ e, (name, e) ∈ es ∧ w.leadsToFolder (base ++ [name]) e = false := by
    intro name
    simp only [List.any_eq_true, Bool.and_eq_true, beq_iff_eq, Bool.not_eq_true']
    constructor
    · rintro ⟨⟨_, e⟩, hmem, rfl, hfile⟩
      exact ⟨e, hmem, hfile⟩
    · rintro ⟨e, hmem, hfile⟩
      exact ⟨(name, e), hmem, rfl, hfile⟩
  simp only [endingHere, hlast, List.mem_ite_nil_right, Bool.and_eq_true, hany,
    List.isSuffixOf_iff_suffix, List.mem_singleton]
  constructor
  · rintro ⟨⟨hfile, hsuffix⟩, rfl⟩
    exact ⟨_, hfile, rfl, hsuffix⟩
  · rintro ⟨name, hfile, rfl, hsuffix⟩
    -- No other name than the last one can stand at the end of such a path.
    have hname : parts.getLast? = some name := by
      rw [allParts_extended] at hsuffix
      exact getLast?_of_suffix hparts hsuffix
    obtain rfl := Option.some.inj (hlast.symm.trans hname)
    exact ⟨⟨hfile, hsuffix⟩, rfl⟩

theorem nodup_endingHere : (w.endingHere parts base dir es).Nodup := by
  unfold endingHere
  split
  · split <;> simp
  · exact .nil

/-- A path has the ending and leads to a file below the entry at `dir`, through folders that are
entered and listed. -/
def IsFound (w : Workspace) (parts base : List Text) (dir : Path) (e : Entry) (p : Path) : Prop :=
  ∃ dirs name, w.IsFileBelow base e dirs name ∧ e.IsOpen dirs ∧
    p = extended dir (dirs ++ [name]) ∧ parts <:+ allParts p

theorem mem_endingBelow
    (ih : ∀ base dir, p ∈ w.endingIn parts base dir m.2 ↔ w.IsFound parts base dir m.2 p) :
    p ∈ w.endingBelow parts base dir m ↔
      IsEntered usualExcluded m.1 ∧ w.IsFound parts (base ++ [m.1]) (dir.child m.1) m.2 p := by
  rw [endingBelow, isEntered_usual_iff, ← ih]
  cases isHidden m.1 || usualExcluded.contains m.1 <;> simp

theorem not_isFound_of_not_folder (h : ∀ es, e ≠ .folder true es) :
    ¬w.IsFound parts base dir e p := by
  rintro ⟨dirs, -, -, hopen, -⟩
  obtain ⟨es, hat⟩ := hopen [] List.nil_prefix
  cases hat
  exact h es rfl

/-- In a folder, the file is directly there or further down in one of the entries. -/
theorem isFound_folder (he : (Entry.folder true es).WellFormed) :
    w.IsFound parts base dir (.folder true es) p ↔
      (∃ name, (∃ e, (name, e) ∈ es ∧ w.leadsToFolder (base ++ [name]) e = false) ∧
        p = extended dir [name] ∧ parts <:+ allParts p) ∨
      ∃ m ∈ es, IsEntered usualExcluded m.1 ∧
        w.IsFound parts (base ++ [m.1]) (dir.child m.1) m.2 p := by
  have hchild : ∀ d way, extended (dir.child d) way = extended dir (d :: way) := by
    intro d way
    simp [extended, Path.child]
  constructor
  · rintro ⟨dirs, name, hfile, hopen, rfl, hsuffix⟩
    cases dirs with
    | nil => exact .inl ⟨name, (isFileBelow_nil he).1 hfile, rfl, hsuffix⟩
    | cons d dirs =>
      obtain ⟨-, hd, child, hmem, hfile, hopen⟩ :=
        (isFileBelow_cons_and_isOpen he).1 ⟨hfile, hopen⟩
      exact .inr ⟨(d, child), hmem, hd, dirs, name, hfile, hopen, (hchild _ _).symm, hsuffix⟩
  · rintro (⟨name, hfile, rfl, hsuffix⟩ |
      ⟨⟨d, child⟩, hmem, hd, dirs, name, hfile, hopen, rfl, hsuffix⟩)
    · exact ⟨[], name, (isFileBelow_nil he).2 hfile, Entry.isOpen_nil.2 rfl, rfl, hsuffix⟩
    · obtain ⟨hfile, hopen⟩ :=
        (isFileBelow_cons_and_isOpen he).2 ⟨rfl, hd, child, hmem, hfile, hopen⟩
      exact ⟨d :: dirs, name, hfile, hopen, hchild _ _, hsuffix⟩

/-- The search finds what a comparison of the paths of all files finds. -/
theorem mem_endingIn (he : e.WellFormed) (hparts : parts ≠ []) :
    p ∈ w.endingIn parts base dir e ↔ w.IsFound parts base dir e p := by
  induction he generalizing base dir with
  | file | link =>
    rw [endingIn_of_not_folder]
    · exact iff_of_false List.not_mem_nil (not_isFound_of_not_folder nofun)
    · exact nofun
  | @folder listable es named distinct entries ih =>
    cases listable with
    | false =>
      rw [endingIn_of_not_folder]
      · exact iff_of_false List.not_mem_nil (not_isFound_of_not_folder nofun)
      · exact nofun
    | true =>
      rw [endingIn_perm.mem_iff, List.mem_append, mem_endingHere hparts, List.mem_flatMap,
        isFound_folder (.folder named distinct entries)]
      refine or_congr_right (exists_congr fun m => and_congr_right fun hm => ?_)
      exact mem_endingBelow fun _ _ => ih m hm

theorem exists_way_of_mem_endingBelow (hm : m.2.WellFormed) (hparts : parts ≠ [])
    (h : p ∈ w.endingBelow parts base dir m) : ∃ way, way ≠ [] ∧ p = extended dir (m.1 :: way) := by
  obtain ⟨-, dirs, name, -, -, rfl, -⟩ := (mem_endingBelow fun _ _ => mem_endingIn hm hparts).1 h
  exact ⟨dirs ++ [name], by simp, by simp [extended, Path.child]⟩

/-- No file is found twice, as the names of a folder are different. -/
theorem nodup_endingIn (he : e.WellFormed) (hparts : parts ≠ []) :
    (w.endingIn parts base dir e).Nodup := by
  induction he generalizing base dir with
  | file | link =>
    rw [endingIn_of_not_folder]
    · exact .nil
    · exact nofun
  | @folder listable es named distinct entries ih =>
    cases listable with
    | false =>
      rw [endingIn_of_not_folder]
      · exact .nil
      · exact nofun
    | true =>
      rw [endingIn_perm.nodup_iff, List.nodup_append]
      refine ⟨nodup_endingHere, List.nodup_flatMap.2 ⟨fun m hm => ?_, ?_⟩, fun p hp q hq => ?_⟩
      · unfold endingBelow
        split
        · exact .nil
        · exact ih m hm
      · refine (List.pairwise_map.1 distinct).imp_of_mem fun {m n} hm hn hne p hp hq => ?_
        obtain ⟨_, -, rfl⟩ := exists_way_of_mem_endingBelow (entries m hm) hparts hp
        obtain ⟨_, -, heq⟩ := exists_way_of_mem_endingBelow (entries n hn) hparts hq
        exact hne (List.cons.inj (extended_injective heq)).1
      · -- What is below an entry has a longer way than what is directly in the folder.
        obtain ⟨m, hm, hq⟩ := List.mem_flatMap.1 hq
        obtain ⟨name, -, rfl, -⟩ := (mem_endingHere hparts).1 hp
        obtain ⟨way, hway, rfl⟩ := exists_way_of_mem_endingBelow (entries m hm) hparts hq
        exact fun heq => hway (List.cons.inj (extended_injective heq)).2.symm

/-! ## The whole search -/

variable {root : Path} {suffix : Text} {way : List Text} {found : List Path}

/-- A search below a path fails only if there can be no such path. -/
theorem exists_matchesOf_iff :
    (∃ found, w.matchesOf root parts = .ok found) ↔ root.text.IsSpellable := by
  unfold matchesOf
  split
  · rename_i l hlocate
    refine iff_of_true ?_ (isSpellable_of_locate hlocate)
    cases l.entry <;> exact ⟨_, rfl⟩
  · rename_i c hlocate
    rw [← isSystem_iff_of_locate hlocate]
    cases c.isSystem <;> simp

/-- What is found is found in the folder that the path leads to, if it leads to an entry at all. -/
theorem matchesOf_cases (h : w.matchesOf root parts = .ok found) :
    (∃ base folder, w.locate .followed root = .ok ⟨base, some folder⟩ ∧
      found = w.endingIn parts base root folder) ∨
    (∀ base folder, w.locate .followed root ≠ .ok ⟨base, some folder⟩) ∧ found = [] := by
  unfold matchesOf at h
  split at h
  · rename_i l hlocate
    obtain ⟨base, _ | folder⟩ := l
    · cases h
      exact .inr ⟨by simp [hlocate], rfl⟩
    · cases h
      exact .inl ⟨base, folder, hlocate, rfl⟩
  · rename_i c hlocate
    split at h
    · cases h
      exact .inr ⟨by simp [hlocate], rfl⟩
    · cases h

theorem mem_of_matchesOf (hw : w.root.WellFormed) (hparts : parts ≠ [])
    (h : w.matchesOf root parts = .ok found) :
    p ∈ found ↔ ∃ base folder, w.locate .followed root = .ok ⟨base, some folder⟩ ∧
      w.IsFound parts base root folder p := by
  obtain ⟨base, folder, hlocate, rfl⟩ | ⟨hnone, rfl⟩ := matchesOf_cases h
  · rw [mem_endingIn (wellFormed_of_locate hw hlocate rfl) hparts]
    simp [hlocate]
  · simp [hnone]

theorem nodup_of_matchesOf (hw : w.root.WellFormed) (hparts : parts ≠ [])
    (h : w.matchesOf root parts = .ok found) : found.Nodup := by
  obtain ⟨base, folder, hlocate, rfl⟩ | ⟨-, rfl⟩ := matchesOf_cases h
  · exact nodup_endingIn (wellFormed_of_locate hw hlocate rfl) hparts
  · exact .nil

theorem resolves_iff : w.Resolves root suffix way ↔
    ∃ base folder, w.locate .followed root = .ok ⟨base, some folder⟩ ∧
      w.IsFound (allParts (Path.parse suffix)) base root folder (extended root way) := by
  constructor
  · rintro ⟨⟨base, folder, dirs, name, hroot, rfl, hfile, hsuffix⟩, base', folder', hroot', hopen⟩
    rw [hroot] at hroot'
    cases hroot'
    rw [List.dropLast_concat] at hopen
    exact ⟨base, folder, hroot, dirs, name, hfile, hopen, rfl, hsuffix⟩
  · rintro ⟨base, folder, hroot, dirs, name, hfile, hopen, heq, hsuffix⟩
    obtain rfl := extended_injective heq
    refine ⟨⟨base, folder, dirs, name, hroot, rfl, hfile, hsuffix⟩, base, folder, hroot, ?_⟩
    rwa [List.dropLast_concat]

/-- The files that a search finds are those it comes to, each once. -/
theorem exists_ways_of_matchesOf (hw : w.root.WellFormed)
    (hparts : allParts (Path.parse suffix) ≠ [])
    (h : w.matchesOf root (allParts (Path.parse suffix)) = .ok found) :
    ∃ ways : List (List Text), found = ways.map (extended root) ∧ ways.Nodup ∧
      ∀ way, way ∈ ways ↔ w.Resolves root suffix way := by
  have hmem : ∀ p, p ∈ found ↔ ∃ base folder, w.locate .followed root = .ok ⟨base, some folder⟩ ∧
      w.IsFound (allParts (Path.parse suffix)) base root folder p :=
    fun _ => mem_of_matchesOf hw hparts h
  have hways : ∀ p ∈ found, ∃ way, p = extended root way := by
    intro p hp
    obtain ⟨_, _, _, dirs, name, _, _, hway, _⟩ := (hmem p).1 hp
    exact ⟨dirs ++ [name], hway⟩
  obtain ⟨ways, rfl⟩ := exists_ways hways
  refine ⟨ways, rfl, (nodup_of_matchesOf hw hparts h).of_map _, fun way => ?_⟩
  rw [resolves_iff, ← hmem, List.mem_map_of_injective fun _ _ => extended_injective]

/-- The result of a search that comes to the files at the ends of these ways. -/
def resolution (root : Path) (suffix : Text) : List (List Text) → Outcome (Option Path)
  | [] => .ok none
  | [way] => .ok (some (extended root way))
  | ways => .error (.ambiguous suffix (ways.map fun way => (extended root way).text))

theorem resolution_cons_cons (way other : List Text) (rest : List (List Text)) :
    resolution root suffix (way :: other :: rest) = .error (.ambiguous suffix
      ((way :: other :: rest).map fun way => (extended root way).text)) :=
  rfl

theorem resolution_eq_some_iff {ways : List (List Text)} (hways : ways.Nodup) :
    resolution root suffix ways = .ok (some p) ↔
      ∃ way ∈ ways, (∀ other ∈ ways, other = way) ∧ p = extended root way := by
  match ways with
  | [] => simp [resolution]
  | [way] => simp [resolution, eq_comm]
  | way :: other :: rest =>
    refine iff_of_false (by simp [resolution_cons_cons]) ?_
    rintro ⟨only, -, honly, -⟩
    have hsame : way = other := (honly way (by simp)).trans (honly other (by simp)).symm
    simp [hsame] at hways

theorem resolution_eq_none_iff {ways : List (List Text)} :
    resolution root suffix ways = .ok none ↔ ∀ way, way ∉ ways := by
  rw [← List.eq_nil_iff_forall_not_mem]
  match ways with
  | [] => simp [resolution]
  | [way] => simp [resolution]
  | way :: other :: rest => simp [resolution_cons_cons]

theorem resolution_eq_ambiguous_iff {ways : List (List Text)} (hways : ways.Nodup)
    {listing : List Text} :
    resolution root suffix ways = .error (.ambiguous suffix listing) ↔
      (∃ way ∈ ways, ∃ other ∈ ways, way ≠ other) ∧
        listing = ways.map fun way => (extended root way).text := by
  match ways with
  | [] => simp [resolution]
  | [way] => simp [resolution]
  | way :: other :: rest =>
    have hne : way ≠ other := by
      rintro rfl
      simp at hways
    have htwo : ∃ a ∈ way :: other :: rest, ∃ b ∈ way :: other :: rest, a ≠ b :=
      ⟨way, by simp, other, by simp, hne⟩
    rw [resolution_cons_cons, and_iff_right htwo, Except.error.injEq, Fault.ambiguous.injEq,
      and_iff_right rfl, eq_comm]

/-- What a search for a partial path with components depends on. -/
theorem findBySuffix_cases (root : Path) (hw : w.root.WellFormed)
    (hparts : allParts (Path.parse suffix) ≠ []) :
    (¬root.text.IsSpellable ∧ (∀ way, ¬w.Resolves root suffix way) ∧
      ∃ f, w.findBySuffix root suffix = .error (.file f)) ∨
    (root.text.IsSpellable ∧ ∃ ways : List (List Text), ways.Nodup ∧
      (∀ way, way ∈ ways ↔ w.Resolves root suffix way) ∧
      w.findBySuffix root suffix = resolution root suffix ways) := by
  have hempty : (allParts (Path.parse suffix)).isEmpty = false := by
    simpa using hparts
  cases hmatches : w.matchesOf root (allParts (Path.parse suffix)) with
  | error f =>
    have hspelled : ¬root.text.IsSpellable := by
      rw [← exists_matchesOf_iff, hmatches]
      simp
    refine .inl ⟨hspelled, fun way hway => ?_, f, ?_⟩
    · obtain ⟨_, _, hroot, -⟩ := resolves_iff.1 hway
      exact hspelled (isSpellable_of_locate hroot)
    · rw [findBySuffix, hmatches, hempty]
      rfl
  | ok found =>
    obtain ⟨ways, rfl, hnodup, hmem⟩ := exists_ways_of_matchesOf hw hparts hmatches
    refine .inr ⟨exists_matchesOf_iff.1 ⟨_, hmatches⟩, ways, hnodup, hmem, ?_⟩
    rw [findBySuffix, hmatches, hempty]
    match ways with
    | [] => rfl
    | [way] => rfl
    | way :: other :: rest =>
      simp [resolution_cons_cons]

/-- The result of a search is told by the files that it comes to. -/
theorem findBySuffix_exact (w : Workspace) (root : Path) (suffix : Text) (hw : w.root.WellFormed) :
    (∀ p, w.findBySuffix root suffix = .ok (some p) ↔
      allParts (Path.parse suffix) ≠ [] ∧ ∃ way, w.Resolves root suffix way ∧
        (∀ other, w.Resolves root suffix other → other = way) ∧ p = extended root way) ∧
    (w.findBySuffix root suffix = .ok none ↔
      allParts (Path.parse suffix) = [] ∨
        root.text.IsSpellable ∧ ∀ way, ¬w.Resolves root suffix way) ∧
    ((∃ listing, w.findBySuffix root suffix = .error (.ambiguous suffix listing)) ↔
      allParts (Path.parse suffix) ≠ [] ∧ ∃ way, w.Resolves root suffix way ∧
        ∃ other, w.Resolves root suffix other ∧ way ≠ other) ∧
    ∀ listing, w.findBySuffix root suffix = .error (.ambiguous suffix listing) →
      ∃ ways : List (List Text), ways.Nodup ∧ (∀ way, way ∈ ways ↔ w.Resolves root suffix way) ∧
        listing = ways.map fun way => (extended root way).text := by
  by_cases hparts : allParts (Path.parse suffix) = []
  · have hnone : w.findBySuffix root suffix = .ok none := by
      rw [findBySuffix, hparts]
      rfl
    simp [hnone, hparts]
  · obtain ⟨hspelled, hno, f, hfault⟩ | ⟨hspelled, ways, hnodup, hmem, hresult⟩ :=
      findBySuffix_cases root hw hparts
    · simp [hfault, hparts, hspelled, hno]
    · refine ⟨fun p => ?_, ?_, ?_, fun listing => ?_⟩
      · rw [hresult, resolution_eq_some_iff hnodup, and_iff_right hparts]
        simp only [hmem]
      · rw [hresult, resolution_eq_none_iff, or_iff_right hparts, and_iff_right hspelled]
        simp only [hmem]
      · rw [hresult, and_iff_right hparts]
        simp only [resolution_eq_ambiguous_iff hnodup, hmem, exists_and_left, exists_eq, and_true]
      · rw [hresult, resolution_eq_ambiguous_iff hnodup]
        rintro ⟨-, rfl⟩
        exact ⟨ways, hnodup, hmem, rfl⟩

/-- Two folders with a file of one name in each, and a third that is not entered. -/
def twoModules : Workspace where
  root := .folder true
    [("a", .folder true [("mod.rs", .file [])]), ("b", .folder true [("mod.rs", .file [])]),
      (".git", .folder true [("mod.rs", .file [])])]
  home := []

theorem wellFormed_twoModules : twoModules.root.WellFormed := by
  refine .folder (by decide) (by decide) fun m hm => ?_
  simp only [List.mem_cons, List.not_mem_nil, or_false] at hm
  rcases hm with rfl | rfl | rfl
  all_goals
    refine .folder (by decide) (by decide) fun m hm => ?_
    rw [List.mem_singleton.1 hm]
    constructor

theorem locate_here {w : Workspace} (hhome : w.home = []) :
    w.locate .followed ⟨[], []⟩ = .ok ⟨[], some w.root⟩ := by
  have hspelled : misspelled? (Path.text ⟨[], []⟩) = none := by
    decide
  simp only [ locate, hspelled, locateFrom, hhome]
  rfl

theorem findBySuffix_twoModules :
    twoModules.findBySuffix ⟨[], []⟩ "b/mod.rs" = .ok (some ⟨[], ["b", "mod.rs"]⟩) := by
  have hparts : allParts (Path.parse "b/mod.rs") = (["b", "mod.rs"] : List Text) := by
    decide
  have hfound : twoModules.endingIn ["b", "mod.rs"] [] ⟨[], []⟩ twoModules.root =
      [⟨[], ["b", "mod.rs"]⟩] := by
    refine List.perm_singleton.1 (endingIn_perm.trans ?_)
    simp only [endingBelow, endingIn, endingInEach, List.mergeSort_nil, List.flatMap_cons,
      List.flatMap_nil, List.append_nil]
    decide
  rw [findBySuffix, hparts, matchesOf, locate_here rfl]
  dsimp only
  rw [hfound]
  rfl

theorem findBySuffix_exact_twoModules : twoModules.root.WellFormed ∧
    twoModules.findBySuffix ⟨[], []⟩ "b/mod.rs" = .ok (some ⟨[], ["b", "mod.rs"]⟩) ∧
    ∃ way, twoModules.Resolves ⟨[], []⟩ "b/mod.rs" way ∧
      (∀ other, twoModules.Resolves ⟨[], []⟩ "b/mod.rs" other → other = way) ∧
      ⟨[], ["b", "mod.rs"]⟩ = extended ⟨[], []⟩ way :=
  ⟨wellFormed_twoModules, findBySuffix_twoModules,
    (((findBySuffix_exact twoModules ⟨[], []⟩ "b/mod.rs" wellFormed_twoModules).1 _).1
      findBySuffix_twoModules).2⟩

/-- A folder that holds a file and cannot be listed. -/
def closedFolder : Workspace where
  root := .folder true [("a", .folder false [("mod.rs", .file [])])]
  home := []

theorem wellFormed_closedFolder : closedFolder.root.WellFormed := by
  refine .folder (by decide) (by decide) fun m hm => ?_
  rw [List.mem_singleton.1 hm]
  refine .folder (by decide) (by decide) fun m hm => ?_
  rw [List.mem_singleton.1 hm]
  exact .file []

theorem isFileBelow_closedFolder {dirs : List Text} {name : Text} :
    closedFolder.IsFileBelow [] closedFolder.root dirs name ↔ dirs = ["a"] ∧ name = "mod.rs" := by
  have hroot := wellFormed_closedFolder
  have hinner : (Entry.folder false [("mod.rs", .file [])]).WellFormed :=
    hroot.mem (m := ("a", _)) (List.mem_singleton_self _)
  constructor
  · intro h
    cases dirs with
    | nil =>
      obtain ⟨e, hmem, hfile⟩ := (isFileBelow_nil hroot).1 h
      cases List.mem_singleton.1 hmem
      cases hfile
    | cons d dirs =>
      obtain ⟨-, child, hmem, h⟩ := (isFileBelow_cons hroot).1 h
      cases List.mem_singleton.1 hmem
      cases dirs with
      | nil =>
        obtain ⟨e, hmem, -⟩ := (isFileBelow_nil hinner).1 h
        cases List.mem_singleton.1 hmem
        exact ⟨rfl, rfl⟩
      | cons d dirs =>
        obtain ⟨-, child, hmem, h⟩ := (isFileBelow_cons hinner).1 h
        cases List.mem_singleton.1 hmem
        obtain ⟨_, hat, -⟩ := h.isFile
        cases dirs <;> cases hat
  · rintro ⟨rfl, rfl⟩
    refine ⟨fun dir hdir => ?_, _, rfl, rfl⟩
    rw [List.mem_singleton.1 hdir]
    exact isEntered_usual_iff.2 (by decide)

/-- The one file with the ending is not found, as it is in a folder that cannot be listed. -/
theorem not_found_in_closedFolder :
    (∃ way, closedFolder.HasEnding ⟨[], []⟩ "mod.rs" way ∧
      ∀ other, closedFolder.HasEnding ⟨[], []⟩ "mod.rs" other → other = way) ∧
    closedFolder.findBySuffix ⟨[], []⟩ "mod.rs" = .ok none := by
  refine ⟨⟨["a", "mod.rs"], ?_, ?_⟩, ?_⟩
  · exact ⟨[], _, ["a"], "mod.rs", locate_here rfl, rfl, isFileBelow_closedFolder.2 ⟨rfl, rfl⟩,
      by decide⟩
  · rintro _ ⟨base, folder, dirs, name, hlocate, rfl, hfile, -⟩
    rw [locate_here rfl] at hlocate
    cases hlocate
    obtain ⟨rfl, rfl⟩ := isFileBelow_closedFolder.1 hfile
    rfl
  · have hparts : allParts (Path.parse "mod.rs") = (["mod.rs"] : List Text) := by
      decide
    have hfound : closedFolder.endingIn ["mod.rs"] [] ⟨[], []⟩ closedFolder.root = [] := by
      refine List.perm_nil.1 (endingIn_perm.trans ?_)
      decide
    rw [findBySuffix, hparts, matchesOf, locate_here rfl]
    dsimp only
    rw [hfound]
    rfl

end Workspace

end CodeCatalog
