import CodeCatalog.Proofs.Lists
import CodeCatalog.Proofs.Text.Distinct
import CodeCatalog.Proofs.Workspace.Discovery
import Mathlib.Data.Set.List
set_option autoImplicit false

/-!
# Complete walks

A walk below a folder finds a file exactly if it enters every folder on the way to it and wants
its name.  It needs every folder that it enters to be listed, and nothing else.  As what it finds
is in the strict order of components, the files alone determine the result: in which order the
folders list their entries does not matter.
-/

namespace CodeCatalog

/-! ## Names -/

/-- A name with this extension: it follows the last dot, and some other character than a dot stands
before that dot. -/
structure Text.HasExtension (name extension : Text) : Prop where
  cut : ∃ stem : Text, name = stem ++ Path.dot :: extension ∧ ∃ g ∈ stem, g ≠ Path.dot
  dot_notMem : Path.dot ∉ extension

/-- A name that does not start with a dot and is not excluded. -/
structure IsEntered (excluded : List Text) (name : Text) : Prop where
  notMem : name ∉ excluded
  not_hidden : ∀ rest, name ≠ Path.dot :: rest

/-- Before the last dot of a name stands what is left without the dot and what follows it. -/
theorem Path.lastDot?_append {stem extension : Text} (h : dot ∉ extension) :
    lastDot? (stem ++ dot :: extension) = some stem.length := by
  have hafter : (stem ++ dot :: extension).reverse.takeWhile (· != dot) = extension.reverse := by
    rw [List.reverse_append, List.reverse_cons, List.append_assoc, List.takeWhile_append_of_pos]
    · simp
    · intro g hg
      simp only [bne_iff_ne]
      rintro rfl
      exact h (List.mem_reverse.1 hg)
  have hdot : (stem ++ dot :: extension).contains dot = true := by
    simp
  rw [lastDot?, if_pos hdot, hafter]
  congr 1
  simp only [List.length_append, List.length_cons, List.length_reverse]
  omega

/-- A name that holds a dot is cut by its last one. -/
theorem Path.exists_cut_of_mem {name : Text} (h : dot ∈ name) :
    ∃ stem extension : Text, name = stem ++ dot :: extension ∧ dot ∉ extension := by
  obtain ⟨after, before, hsplit, hafter⟩ := List.eq_append_cons_of_mem (List.mem_reverse.2 h)
  refine ⟨before.reverse, after.reverse, ?_, ?_⟩
  · rw [← List.reverse_reverse name, hsplit]
    simp
  · intro hmem
    exact hafter (List.mem_reverse.1 hmem)

theorem walkExtension_of_cut {stem extension : Text} (h : Path.dot ∉ extension) :
    walkExtension (stem ++ Path.dot :: extension) =
      if ∃ g ∈ stem, g ≠ Path.dot then Text.lower extension else [] := by
  have hstrip : (Path.dot :: extension).dropWhile (· == Path.dot) = extension := by
    rw [List.dropWhile_cons, if_pos (beq_self_eq_true _)]
    cases extension with
    | nil => rfl
    | cons g rest =>
      have hg : g ≠ Path.dot := fun heq => h (heq ▸ List.mem_cons_self)
      rw [List.dropWhile_cons, if_neg (by simpa using hg)]
  have hall : stem.all (· == Path.dot) = true ↔ ¬∃ g ∈ stem, g ≠ Path.dot := by
    simp
  rw [walkExtension, Path.lastDot?_append h]
  simp only [List.take_left, List.drop_left, hstrip]
  by_cases hstem : ∃ g ∈ stem, g ≠ Path.dot
  · rw [if_pos hstem, if_neg (by rw [hall]; exact not_not_intro hstem)]
  · rw [if_neg hstem, if_pos (hall.2 hstem)]

theorem ne_nil_of_mem_normalExtensions {extension : Text} {extensions : List Text}
    (h : extension ∈ normalExtensions extensions) : extension ≠ [] := by
  rintro rfl
  simp [normalExtensions, Text.mem_distinct] at h

namespace FileQuery

variable {extensions excluded : List Text} {name : Text}

theorem enters_iff : (ofExtensions extensions excluded).enters name = true ↔
    IsEntered excluded name := by
  have hhidden : isHidden name = false ↔ ∀ rest, name ≠ Path.dot :: rest := by
    cases name <;> simp [isHidden]
  rw [enters, Bool.not_eq_true', Bool.or_eq_false_iff, hhidden, ← Bool.not_eq_true,
    List.contains_iff_mem]
  exact ⟨fun ⟨hmem, hdot⟩ => ⟨hmem, hdot⟩, fun h => ⟨h.notMem, h.not_hidden⟩⟩

theorem wants_iff : (ofExtensions extensions excluded).wants name = true ↔
    ∃ extension, name.HasExtension extension ∧
      Text.lower extension ∈ normalExtensions extensions := by
  have hwants : (ofExtensions extensions excluded).wants name = true ↔
      walkExtension name ∈ normalExtensions extensions := by
    simp only [wants, ofExtensions, Bool.and_eq_true, Bool.not_eq_true', List.contains_iff_mem]
    constructor
    · intro h
      exact h.2
    · intro h
      exact ⟨by simpa using ne_nil_of_mem_normalExtensions h, h⟩
  rw [hwants]
  constructor
  · intro h
    have hdot : Path.dot ∈ name := by
      by_contra hnone
      refine ne_nil_of_mem_normalExtensions h ?_
      simp [walkExtension, Path.lastDot?, hnone]
    obtain ⟨stem, extension, rfl, hlast⟩ := Path.exists_cut_of_mem hdot
    rw [walkExtension_of_cut hlast] at h
    split at h
    · rename_i hstem
      exact ⟨extension, ⟨⟨stem, rfl, hstem⟩, hlast⟩, h⟩
    · exact absurd rfl (ne_nil_of_mem_normalExtensions h)
  · rintro ⟨extension, ⟨⟨stem, rfl, hstem⟩, hlast⟩, hmem⟩
    rwa [walkExtension_of_cut hlast, if_pos hstem]

end FileQuery

/-! ## Entries at the end of a way -/

theorem Entry.WellFormed.lookup_eq_some_iff {listable : Bool} {es : List (Text × Entry)}
    {name : Text} {child : Entry} (h : (Entry.folder listable es).WellFormed) :
    es.lookup name = some child ↔ (name, child) ∈ es := by
  cases h with
  | folder _ distinct _ => exact lookup_eq_some_iff_mem distinct

/-- The first step of a way leads to an entry of the folder. -/
theorem Entry.WellFormed.at?_cons {listable : Bool} {es : List (Text × Entry)} {name : Text}
    {way : List Text} {found : Entry} (h : (Entry.folder listable es).WellFormed) :
    (Entry.folder listable es).at? (name :: way) = some found ↔
      ∃ child, (name, child) ∈ es ∧ child.at? way = some found := by
  rw [Entry.at?, Option.bind_eq_some_iff]
  simp only [Entry.entries, h.lookup_eq_some_iff]

theorem Entry.WellFormed.exists_of_at?_cons {e found : Entry} {name : Text} {way : List Text}
    (he : e.WellFormed) (h : e.at? (name :: way) = some found) :
    ∃ listable es child, e = .folder listable es ∧ (name, child) ∈ es ∧
      child.at? way = some found := by
  cases e with
  | file | link => cases h
  | folder listable es =>
    obtain ⟨child, hmem, hchild⟩ := he.at?_cons.1 h
    exact ⟨listable, es, child, rfl, hmem, hchild⟩

/-! ## What a walk reaches -/

/-- A query finds the file at the end of a way. -/
inductive FileQuery.Reaches (q : FileQuery) : Entry → List Text → Prop
  | file {listable : Bool} {es : List (Text × Entry)} {name : Text} {content : Bytes}
    (mem : (name, .file content) ∈ es) (wanted : q.wants name = true) :
    Reaches q (.folder listable es) [name]
  | inside {listable : Bool} {es : List (Text × Entry)} {name : Text} {child : Entry}
    {way : List Text} (mem : (name, child) ∈ es) (entered : q.enters name = true)
    (rest : Reaches q child way) : Reaches q (.folder listable es) (name :: way)

/-- A query enters a folder that cannot be listed. -/
inductive FileQuery.Blocked (q : FileQuery) : Entry → Prop
  | here (es : List (Text × Entry)) : Blocked q (.folder false es)
  | inside {listable : Bool} {es : List (Text × Entry)} {name : Text} {child : Entry}
    (mem : (name, child) ∈ es) (entered : q.enters name = true) (rest : Blocked q child) :
    Blocked q (.folder listable es)

namespace FileQuery

variable {q : FileQuery} {e : Entry} {dir p : Path} {found : List Path}

theorem reaches_iff (he : e.WellFormed) {dirs : List Text} {name : Text} :
    q.Reaches e (dirs ++ [name]) ↔
      (∃ content, e.at? (dirs ++ [name]) = some (.file content)) ∧
        (∀ d ∈ dirs, q.enters d = true) ∧ q.wants name = true := by
  induction dirs generalizing e with
  | nil =>
    rw [List.nil_append]
    constructor
    · intro h
      cases h with
      | file mem wanted => exact ⟨⟨_, he.at?_cons.2 ⟨_, mem, rfl⟩⟩, by simp, wanted⟩
      | inside _ _ rest => cases rest
    · rintro ⟨⟨content, hat⟩, -, hwanted⟩
      obtain ⟨listable, es, child, rfl, hmem, hchild⟩ := he.exists_of_at?_cons hat
      cases hchild
      exact .file hmem hwanted
  | cons d dirs ih =>
    rw [List.cons_append]
    constructor
    · intro h
      generalize hway : d :: (dirs ++ [name]) = way at h
      cases h with
      | file => simp at hway
      | inside mem entered rest =>
        cases hway
        obtain ⟨⟨content, hat⟩, hdirs, hwanted⟩ := (ih (he.mem mem)).1 rest
        refine ⟨⟨content, he.at?_cons.2 ⟨_, mem, hat⟩⟩, ?_, hwanted⟩
        exact List.forall_mem_cons.2 ⟨entered, hdirs⟩
    · rintro ⟨⟨content, hat⟩, hdirs, hwanted⟩
      obtain ⟨hentered, hdirs⟩ := List.forall_mem_cons.1 hdirs
      obtain ⟨listable, es, child, rfl, hmem, hchild⟩ := he.exists_of_at?_cons hat
      exact .inside hmem hentered ((ih (he.mem hmem)).2 ⟨⟨content, hchild⟩, hdirs, hwanted⟩)

theorem not_reaches_nil : ¬q.Reaches e [] := by
  intro h
  cases h

theorem blocked_iff (he : e.WellFormed) :
    q.Blocked e ↔
      ∃ dirs es, e.at? dirs = some (.folder false es) ∧ ∀ d ∈ dirs, q.enters d = true := by
  constructor
  · intro h
    induction h with
    | here es => exact ⟨[], es, rfl, by simp⟩
    | inside mem entered _ ih =>
      obtain ⟨dirs, es, hat, hdirs⟩ := ih (he.mem mem)
      refine ⟨_ :: dirs, es, he.at?_cons.2 ⟨_, mem, hat⟩, ?_⟩
      exact List.forall_mem_cons.2 ⟨entered, hdirs⟩
  · rintro ⟨dirs, es, hat, hdirs⟩
    induction dirs generalizing e with
    | nil =>
      cases hat
      exact .here es
    | cons d dirs ih =>
      obtain ⟨hentered, hdirs⟩ := List.forall_mem_cons.1 hdirs
      obtain ⟨listable, es, child, rfl, hmem, hchild⟩ := he.exists_of_at?_cons hat
      exact .inside hmem hentered (ih (he.mem hmem) hchild hdirs)

end FileQuery

/-! ## One folder of a walk -/

theorem mem_of_collectByName {α : Type} {results : List (Text × Except FileFault (List α))}
    {found : List α} (h : collectByName results = .ok found) {x : α} :
    x ∈ found ↔ ∃ r ∈ results, ∃ part, r.2 = .ok part ∧ x ∈ part := by
  obtain ⟨named, hperm, -, rfl⟩ := exists_named_of_collectByName h
  rw [List.mem_flatMap]
  constructor
  · rintro ⟨m, hm, hx⟩
    exact ⟨_, hperm.mem_iff.1 (List.mem_map_of_mem hm), m.2, rfl, hx⟩
  · rintro ⟨r, hr, part, hpart, hx⟩
    obtain ⟨m, hm, rfl⟩ := List.mem_map.1 (hperm.mem_iff.2 hr)
    cases hpart
    exact ⟨m, hm, hx⟩

theorem exists_of_collectByName_eq_error {α : Type}
    {results : List (Text × Except FileFault (List α))} {f : FileFault}
    (h : collectByName results = .error f) : ∃ r ∈ results, r.2 = .error f := by
  unfold collectByName at h
  cases hlists : (results.mergeSort fun a b => a.1.atMost b.1).mapM Prod.snd with
  | ok lists =>
    simp only [hlists] at h
    cases h
  | error other =>
    simp only [hlists] at h
    cases h
    obtain ⟨before, r, after, hsplit, -, heq⟩ := mapM_eq_error.1 hlists
    have hr : r ∈ results.mergeSort fun a b => a.1.atMost b.1 := by
      rw [hsplit]
      exact List.mem_append_right before List.mem_cons_self
    exact ⟨r, List.mem_mergeSort.1 hr, heq⟩

/-- No failure of an entry is lost. -/
theorem ok_of_collectByName {α : Type} {results : List (Text × Except FileFault (List α))}
    {found : List α} (h : collectByName results = .ok found) :
    ∀ r ∈ results, ∃ part, r.2 = .ok part := by
  intro r hr
  obtain ⟨named, hperm, -, -⟩ := exists_named_of_collectByName h
  obtain ⟨m, -, rfl⟩ := List.mem_map.1 (hperm.mem_iff.2 hr)
  exact ⟨m.2, rfl⟩

namespace FileQuery

variable {q : FileQuery} {e : Entry} {dir p : Path}

theorem find_folder (listable : Bool) (es : List (Text × Entry)) :
    (Entry.folder listable es).find q dir =
      if listable then collectByName (es.map fun m => (m.1, q.findIn dir m))
      else .error ⟨.denied, dir.text⟩ := by
  rw [Entry.find, findEach_eq_map]

/-- A folder whose files are found is listed. -/
theorem collectByName_of_find {listable : Bool} {es : List (Text × Entry)} {found : List Path}
    (h : (Entry.folder listable es).find q dir = .ok found) :
    collectByName (es.map fun m => (m.1, q.findIn dir m)) = .ok found := by
  rw [find_folder] at h
  split at h
  · exact h
  · cases h

/-- What is found in an entry is the file itself or what is reached below the folder. -/
theorem mem_of_findIn {m : Text × Entry} {part : List Path}
    (ih : ∀ found, m.2.find q (dir.child m.1) = .ok found →
      ∀ p, p ∈ found ↔ ∃ way, q.Reaches m.2 way ∧ p = Workspace.extended (dir.child m.1) way)
    (h : q.findIn dir m = .ok part) :
    p ∈ part ↔
      (∃ content, m.2 = .file content ∧ q.wants m.1 = true ∧ p = Workspace.extended dir [m.1]) ∨
        q.enters m.1 = true ∧
          ∃ way, q.Reaches m.2 way ∧ p = Workspace.extended dir (m.1 :: way) := by
  obtain ⟨name, entry⟩ := m
  cases entry with
  | file content =>
    have hbelow : ∀ way, ¬q.Reaches (.file content) way := by
      intro way hway
      cases hway
    by_cases hwanted : q.wants name = true
    · simp only [findIn, if_pos hwanted] at h
      cases h
      simp only [hbelow, hwanted, List.mem_singleton]
      simp [Workspace.extended, Path.child]
    · simp only [findIn, if_neg hwanted] at h
      cases h
      simp [hbelow, hwanted]
  | link target =>
    cases h
    constructor
    · intro hp
      cases hp
    · rintro (⟨_, hfile, -⟩ | ⟨-, way, hway, -⟩)
      · cases hfile
      · cases hway
  | folder listable es =>
    simp only [findIn] at h
    have hchild : ∀ way, Workspace.extended (dir.child name) way =
        Workspace.extended dir (name :: way) := by
      intro way
      simp [Workspace.extended, Path.child]
    by_cases hentered : q.enters name = true
    · rw [if_pos hentered] at h
      simp only [ih part h p, hchild, hentered, true_and]
      simp
    · rw [if_neg hentered] at h
      cases h
      simp [hentered]

/-- A walk finds the files that it reaches, and nothing else. -/
theorem mem_of_find (he : e.WellFormed) {found : List Path} (h : e.find q dir = .ok found) :
    p ∈ found ↔ ∃ way, q.Reaches e way ∧ p = Workspace.extended dir way := by
  induction he generalizing dir found p with
  | file | link =>
    rw [Entry.find] at h
    · cases h
    · simp
  | @folder listable es _ _ _ ih =>
    rw [mem_of_collectByName (collectByName_of_find h)]
    have hparts := ok_of_collectByName (collectByName_of_find h)
    constructor
    · rintro ⟨r, hr, part, hpart, hp⟩
      obtain ⟨m, hm, rfl⟩ := List.mem_map.1 hr
      rcases (mem_of_findIn (fun _ hfound _ => ih m hm hfound) hpart).1 hp with
        ⟨content, hfile, hwanted, rfl⟩ | ⟨hentered, way, hway, rfl⟩
      · have hmem : (m.1, Entry.file content) ∈ es := by
          rw [← hfile]
          exact hm
        exact ⟨[m.1], .file hmem hwanted, rfl⟩
      · exact ⟨m.1 :: way, .inside hm hentered hway, rfl⟩
    · rintro ⟨way, hway, rfl⟩
      cases hway with
      | @file _ _ name content mem wanted =>
        obtain ⟨part, hpart⟩ := hparts _ (List.mem_map_of_mem mem)
        refine ⟨_, List.mem_map_of_mem mem, part, hpart, ?_⟩
        exact (mem_of_findIn (fun _ hfound _ => ih _ mem hfound) hpart).2
          (Or.inl ⟨content, rfl, wanted, rfl⟩)
      | @inside _ _ name child way mem entered rest =>
        obtain ⟨part, hpart⟩ := hparts _ (List.mem_map_of_mem mem)
        refine ⟨_, List.mem_map_of_mem mem, part, hpart, ?_⟩
        exact (mem_of_findIn (fun _ hfound _ => ih _ mem hfound) hpart).2
          (Or.inr ⟨entered, way, rest, rfl⟩)

theorem not_blocked_of_find {found : List Path} (h : e.find q dir = .ok found) :
    ¬q.Blocked e := by
  intro hblocked
  induction hblocked generalizing dir found with
  | here es =>
    rw [find_folder] at h
    cases h
  | @inside listable es name child mem entered rest ih =>
    obtain ⟨part, hpart⟩ := ok_of_collectByName (collectByName_of_find h) _
      (List.mem_map_of_mem mem)
    cases rest with
    | here | inside =>
      simp only [findIn, if_pos entered] at hpart
      exact ih hpart

/-- A walk below a folder fails at a folder that it enters and that cannot be listed. -/
theorem blocked_of_find (he : e.WellFormed) {f : FileFault} {listable : Bool}
    {es : List (Text × Entry)} (hfolder : e = .folder listable es)
    (h : e.find q dir = .error f) : q.Blocked e ∧ f.cause = .denied := by
  induction he generalizing dir listable es with
  | file | link => cases hfolder
  | @folder listable es _ _ _ ih =>
    rw [find_folder] at h
    split at h
    · obtain ⟨r, hr, hfault⟩ := exists_of_collectByName_eq_error h
      obtain ⟨⟨name, child⟩, hm, rfl⟩ := List.mem_map.1 hr
      cases child with
      | file | link => cases hfault
      | folder inner entries =>
        simp only [findIn] at hfault
        split at hfault
        · rename_i hentered
          obtain ⟨hblocked, hcause⟩ := ih _ hm rfl hfault
          exact ⟨.inside hm hentered hblocked, hcause⟩
        · cases hfault
    · rename_i hlisted
      cases h
      rw [Bool.not_eq_true] at hlisted
      subst hlisted
      exact ⟨.here _, rfl⟩

end FileQuery

/-! ## The order of ways -/

namespace Text

theorem before_asymm {a b : Text} (h : before a b = true) : ¬before b a = true := by
  intro hback
  exact lt_asymm (before_iff.1 h) (before_iff.1 hback)

end Text

/-- The components of a way come before those of another one. -/
def WayBefore : List Text → List Text → Prop := List.Lex fun a b => Text.before a b = true

theorem WayBefore.antisymm {way other : List Text} (h : WayBefore way other)
    (hback : WayBefore other way) : way = other := by
  have hasymm : Std.Asymm fun a b => Text.before a b = true := ⟨fun _ _ => Text.before_asymm⟩
  exact absurd hback ((List.Lex.asymm _).asymm way other h)

/-- Lists of ways that are in strict order and have the same members are equal. -/
theorem eq_of_wayBefore {ways others : List (List Text)} (hways : ways.Pairwise WayBefore)
    (hothers : others.Pairwise WayBefore) (hmem : ∀ way, way ∈ ways ↔ way ∈ others) :
    ways = others := by
  have hne : ∀ {a b : List Text}, WayBefore a b → a ≠ b := by
    rintro a _ h rfl
    exact List.lex_irrefl Text.before_irrefl _ h
  have hperm : ways.Perm others :=
    (List.perm_ext_iff_of_nodup (hways.imp hne) (hothers.imp hne)).2 hmem
  exact hperm.eq_of_pairwise (fun _ _ _ _ => WayBefore.antisymm) hways hothers

theorem Path.wayBefore_of_before {root : Path} {way other : List Text}
    (h : (Workspace.extended root way).Before (Workspace.extended root other)) :
    WayBefore way other := by
  have : Std.Irrefl fun a b => Text.before a b = true := ⟨Text.before_irrefl⟩
  have hparts : List.Lex (fun a b => Text.before a b = true) (root.parts ++ way)
      (root.parts ++ other) := h
  generalize root.parts = parts at hparts
  induction parts with
  | nil => exact hparts
  | cons name parts ih => exact ih (List.lex_cons_iff.1 hparts)

theorem Workspace.extended_injective {root : Path} {way other : List Text}
    (h : extended root way = extended root other) : way = other :=
  List.append_cancel_left (congrArg Path.parts h)

/-- Paths below a folder are at the ends of ways. -/
theorem Workspace.exists_ways {root : Path} {found : List Path}
    (h : ∀ p ∈ found, ∃ way, p = extended root way) :
    ∃ ways : List (List Text), found = ways.map (extended root) := by
  have hrange : found ∈ Set.range (List.map (extended root)) := by
    rw [Set.range_list_map]
    intro p hp
    obtain ⟨way, rfl⟩ := h p hp
    exact ⟨way, rfl⟩
  obtain ⟨ways, rfl⟩ := hrange
  exact ⟨ways, rfl⟩

/-- Files below a folder are at the ends of ways in strict order. -/
theorem FoundBelow.exists_ways {root : Path} {found : List Path} (h : FoundBelow root found) :
    ∃ ways : List (List Text), found = ways.map (Workspace.extended root) ∧
      ways.Pairwise WayBefore := by
  have hways : ∀ p ∈ found, ∃ way, p = Workspace.extended root way := by
    intro p hp
    obtain ⟨way, -, hway⟩ := h.below p hp
    exact ⟨way, hway⟩
  obtain ⟨ways, rfl⟩ := Workspace.exists_ways hways
  exact ⟨ways, rfl, (List.pairwise_map.1 h.ordered).imp Path.wayBefore_of_before⟩

/-! ## Files by their extensions -/

namespace Entry

/-- The file at the end of a way through folders that are entered, with a name whose extension in
small letters is among the normalised ones. -/
structure IsSought (e : Entry) (extensions excluded dirs : List Text) (name : Text) : Prop where
  isFile : ∃ content, e.at? (dirs ++ [name]) = some (.file content)
  entered : ∀ dir ∈ dirs, IsEntered excluded dir
  wanted : ∃ extension, name.HasExtension extension ∧
    Text.lower extension ∈ normalExtensions extensions

/-- Every folder at the end of a way through folders that are entered can be listed. -/
def IsListed (e : Entry) (excluded : List Text) : Prop :=
  ∀ dirs es, (∀ dir ∈ dirs, IsEntered excluded dir) → e.at? dirs ≠ some (.folder false es)

/-- What an entry is, whatever is below it. -/
def own : Entry → Entry
  | .folder listable _ => .folder listable []
  | e => e

/-- Trees that hold the same at the end of every way, in whatever order their folders list it. -/
def HoldsSame (e other : Entry) : Prop :=
  ∀ way, (e.at? way).map own = (other.at? way).map own

theorem own_eq_file_iff {e : Entry} {content : Bytes} :
    e.own = .file content ↔ e = .file content := by
  cases e <;> simp [own]

theorem HoldsSame.isSought {e other : Entry} {extensions excluded dirs : List Text} {name : Text}
    (h : e.HoldsSame other) :
    e.IsSought extensions excluded dirs name ↔ other.IsSought extensions excluded dirs name := by
  have hfile : ∀ (root : Entry) content, root.at? (dirs ++ [name]) = some (.file content) ↔
      (root.at? (dirs ++ [name])).map own = some (.file content) := by
    intro root content
    simp [own_eq_file_iff]
  have hsame : (∃ content, e.at? (dirs ++ [name]) = some (.file content)) ↔
      ∃ content, other.at? (dirs ++ [name]) = some (.file content) := by
    simp only [hfile, h (dirs ++ [name])]
  exact ⟨fun hs => ⟨hsame.1 hs.isFile, hs.entered, hs.wanted⟩,
    fun hs => ⟨hsame.2 hs.isFile, hs.entered, hs.wanted⟩⟩

theorem HoldsSame.isListed {e other : Entry} {excluded : List Text} (h : e.HoldsSame other)
    (he : e.IsListed excluded) : other.IsListed excluded := by
  intro dirs es hdirs hat
  have hown := h dirs
  rw [hat] at hown
  obtain ⟨found, hfound, heq⟩ := Option.map_eq_some_iff.1 hown
  cases found with
  | file | link => cases heq
  | folder listable inner =>
    cases heq
    exact he dirs inner hdirs hfound

end Entry

namespace FileQuery

variable {extensions excluded : List Text} {e : Entry}

theorem not_blocked_iff (he : e.WellFormed) :
    ¬(ofExtensions extensions excluded).Blocked e ↔ e.IsListed excluded := by
  rw [blocked_iff he]
  simp only [enters_iff]
  constructor
  · intro h dirs es hdirs hat
    exact h ⟨dirs, es, hat, hdirs⟩
  · rintro h ⟨dirs, es, hat, hdirs⟩
    exact h dirs es hdirs hat

theorem reaches_iff_isSought (he : e.WellFormed) {way : List Text} :
    (ofExtensions extensions excluded).Reaches e way ↔
      ∃ dirs name, way = dirs ++ [name] ∧ e.IsSought extensions excluded dirs name := by
  constructor
  · intro h
    rcases List.eq_nil_or_concat way with rfl | ⟨dirs, name, rfl⟩
    · exact absurd h not_reaches_nil
    · rw [List.concat_eq_append] at h ⊢
      obtain ⟨hfile, hdirs, hwanted⟩ := (reaches_iff he).1 h
      exact ⟨dirs, name, rfl, hfile, fun d hd => enters_iff.1 (hdirs d hd), wants_iff.1 hwanted⟩
  · rintro ⟨dirs, name, rfl, h⟩
    exact (reaches_iff he).2
      ⟨h.isFile, fun d hd => enters_iff.2 (h.entered d hd), wants_iff.2 h.wanted⟩

end FileQuery

namespace Workspace

variable {w : Workspace} {root : Path} {folder : Entry} {extensions excluded : List Text}

theorem findFiles_of_folder (h : w.entry? root = .ok (some folder)) {listable : Bool}
    {es : List (Text × Entry)} (hfolder : folder = .folder listable es) :
    w.findFiles root extensions excluded =
      (folder.find (.ofExtensions extensions excluded) root).mapError
        fun f => .walkFailed root.text f := by
  subst hfolder
  rw [findFiles, h]

/-- The ways of the found files are those of the files that are sought, in strict order. -/
theorem exists_ways_of_findFiles (hw : w.root.WellFormed) {listable : Bool}
    {es : List (Text × Entry)} (hroot : w.entry? root = .ok (some (.folder listable es)))
    {found : List Path} (h : w.findFiles root extensions excluded = .ok found) :
    ∃ ways : List (List Text), found = ways.map (extended root) ∧ ways.Pairwise WayBefore ∧
      ∀ way, way ∈ ways ↔ ∃ dirs name, way = dirs ++ [name] ∧
        (Entry.folder listable es).IsSought extensions excluded dirs name := by
  obtain ⟨ways, rfl, hordered⟩ := (foundBelow_of_findFiles hw h).1.exists_ways
  have hfolder := wellFormed_of_entry hw hroot
  rw [findFiles_of_folder hroot rfl] at h
  cases hfind : (Entry.folder listable es).find (.ofExtensions extensions excluded) root with
  | error f =>
    rw [hfind] at h
    cases h
  | ok files =>
    rw [hfind] at h
    cases h
    refine ⟨ways, rfl, hordered, fun way => ?_⟩
    rw [← FileQuery.reaches_iff_isSought hfolder]
    have hmem := FileQuery.mem_of_find (p := extended root way) hfolder hfind
    rw [List.mem_map_of_injective fun _ _ => extended_injective] at hmem
    rw [hmem]
    constructor
    · rintro ⟨other, hother, heq⟩
      rwa [extended_injective heq]
    · intro hway
      exact ⟨way, hway, rfl⟩

/-- A search succeeds if every folder that it enters is listed. -/
theorem exists_findFiles_of_isListed (hw : w.root.WellFormed) {listable : Bool}
    {es : List (Text × Entry)} (hroot : w.entry? root = .ok (some (.folder listable es)))
    (h : (Entry.folder listable es).IsListed excluded) :
    ∃ found, w.findFiles root extensions excluded = .ok found := by
  have hfolder := wellFormed_of_entry hw hroot
  rw [findFiles_of_folder hroot rfl]
  cases hfind : (Entry.folder listable es).find (.ofExtensions extensions excluded) root with
  | error f =>
    have hblocked := (FileQuery.blocked_of_find hfolder rfl hfind).1
    exact absurd hblocked ((FileQuery.not_blocked_iff hfolder).2 h)
  | ok files => exact ⟨files, rfl⟩

/-- A search that meets a folder that it cannot list fails. -/
theorem findFiles_of_not_isListed (hw : w.root.WellFormed) {listable : Bool}
    {es : List (Text × Entry)} (hroot : w.entry? root = .ok (some (.folder listable es)))
    (h : ¬(Entry.folder listable es).IsListed excluded) :
    ∃ dir, w.findFiles root extensions excluded =
      .error (.walkFailed root.text ⟨.denied, dir⟩) := by
  have hfolder := wellFormed_of_entry hw hroot
  rw [findFiles_of_folder hroot rfl]
  cases hfind : (Entry.folder listable es).find (.ofExtensions extensions excluded) root with
  | error f =>
    obtain ⟨cause, dir⟩ := f
    obtain ⟨-, rfl⟩ := FileQuery.blocked_of_find hfolder rfl hfind
    exact ⟨dir, rfl⟩
  | ok files =>
    refine absurd ?_ h
    exact (FileQuery.not_blocked_iff hfolder).1 (FileQuery.not_blocked_of_find hfind)

/-- A search by extensions returns exactly the files that are sought, each once and in the strict
order of their components below the folder, provided that it can list the folders that it enters.
Another order of the entries of the folders does not change the result. -/
theorem findFiles_exact {listable : Bool} {es : List (Text × Entry)} (hw : w.root.WellFormed)
    (hroot : w.entry? root = .ok (some (.folder listable es))) :
    ((Entry.folder listable es).IsListed excluded → ∃ ways : List (List Text),
      w.findFiles root extensions excluded = .ok (ways.map (extended root)) ∧
      ways.Pairwise WayBefore ∧
      ∀ way, way ∈ ways ↔ ∃ dirs name, way = dirs ++ [name] ∧
        (Entry.folder listable es).IsSought extensions excluded dirs name) ∧
    (¬(Entry.folder listable es).IsListed excluded →
      ∃ dir, w.findFiles root extensions excluded =
        .error (.walkFailed root.text ⟨.denied, dir⟩)) ∧
    ∀ (other : Workspace) (listable' : Bool) (es' : List (Text × Entry)),
      other.root.WellFormed → other.entry? root = .ok (some (.folder listable' es')) →
      (Entry.folder listable es).HoldsSame (.folder listable' es') →
      (Entry.folder listable es).IsListed excluded →
      other.findFiles root extensions excluded = w.findFiles root extensions excluded := by
  refine ⟨fun hlisted => ?_, findFiles_of_not_isListed hw hroot, ?_⟩
  · obtain ⟨found, hfound⟩ := exists_findFiles_of_isListed hw hroot hlisted
    obtain ⟨ways, rfl, hordered, hmem⟩ := exists_ways_of_findFiles hw hroot hfound
    exact ⟨ways, hfound, hordered, hmem⟩
  · intro other listable' es' hother hroot' hsame hlisted
    obtain ⟨found, hfound⟩ : ∃ found, w.findFiles root extensions excluded = .ok found :=
      exists_findFiles_of_isListed hw hroot hlisted
    obtain ⟨found', hfound'⟩ : ∃ found, other.findFiles root extensions excluded = .ok found :=
      exists_findFiles_of_isListed hother hroot' (hsame.isListed hlisted)
    obtain ⟨ways, rfl, hordered, hmem⟩ := exists_ways_of_findFiles hw hroot hfound
    obtain ⟨ways', rfl, hordered', hmem'⟩ := exists_ways_of_findFiles hother hroot' hfound'
    have heq : ways' = ways := by
      refine eq_of_wayBefore hordered' hordered fun way => ?_
      simp only [hmem, hmem', hsame.isSought]
    rw [hfound, hfound', heq]

/-- A folder that lists its files out of order, next to folders that are not entered. -/
def scattered : Workspace where
  root := .folder true
    [("lib.py", .file []), ("build", .folder true [("made.py", .file [])]),
      (".git", .folder false []), ("app", .folder true [("Main.PY", .file []), (".py", .file [])])]
  home := []

theorem wellFormed_scattered : scattered.root.WellFormed := by
  refine .folder (by decide) (by decide) fun m hm => ?_
  simp only [List.mem_cons, List.not_mem_nil, or_false] at hm
  rcases hm with rfl | rfl | rfl | rfl
  · exact .file _
  · refine .folder (by decide) (by decide) fun m hm => ?_
    rw [List.mem_singleton.1 hm]
    exact .file _
  · exact .folder (by decide) (by decide) (by simp)
  · refine .folder (by decide) (by decide) fun m hm => ?_
    rcases List.mem_pair.1 hm with rfl | rfl
    · exact .file _
    · exact .file _

theorem entry?_scattered : scattered.entry? ⟨[], []⟩ = .ok (some scattered.root) := by
  have hspelled : misspelled? (Path.text ⟨[], []⟩) = none := by
    decide
  simp only [ entry?, locate, hspelled, locateFrom]
  rfl

theorem isListed_scattered : scattered.root.IsListed ["build"] := by
  suffices hblocked : ¬(FileQuery.ofExtensions [] ["build"]).Blocked scattered.root from
    (FileQuery.not_blocked_iff wellFormed_scattered).1 hblocked
  intro h
  cases h with
  | inside mem entered rest =>
    simp only [List.mem_cons, List.not_mem_nil, or_false, Prod.mk.injEq] at mem
    rcases mem with ⟨-, rfl⟩ | ⟨-, rfl⟩ | ⟨rfl, -⟩ | ⟨-, rfl⟩
    · cases rest
    · cases rest with
      | inside mem _ rest =>
        simp only [List.mem_singleton, Prod.mk.injEq] at mem
        obtain ⟨-, rfl⟩ := mem
        cases rest
    · exact absurd entered (by decide)
    · cases rest with
      | inside mem _ rest =>
        simp only [List.mem_cons, List.not_mem_nil, or_false, Prod.mk.injEq] at mem
        rcases mem with ⟨-, rfl⟩ | ⟨-, rfl⟩
        · cases rest
        · cases rest

theorem findFiles_exact_scattered : scattered.root.WellFormed ∧
    scattered.entry? ⟨[], []⟩ = .ok (some scattered.root) ∧
    scattered.root.IsListed ["build"] ∧
    ∃ ways : List (List Text),
      scattered.findFiles ⟨[], []⟩ ["py"] ["build"] = .ok (ways.map (extended ⟨[], []⟩)) ∧
      ways.Pairwise WayBefore ∧
      ∀ way, way ∈ ways ↔ ∃ dirs name, way = dirs ++ [name] ∧
        scattered.root.IsSought ["py"] ["build"] dirs name :=
  ⟨wellFormed_scattered, entry?_scattered, isListed_scattered,
    (findFiles_exact wellFormed_scattered entry?_scattered).1 isListed_scattered⟩

end Workspace

end CodeCatalog
