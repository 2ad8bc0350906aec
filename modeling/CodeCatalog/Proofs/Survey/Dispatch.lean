import CodeCatalog.Proofs.Request.Extensions
import CodeCatalog.Proofs.Survey
import CodeCatalog.Proofs.Workspace.Walk
set_option autoImplicit false

/-!
# The grammars of found files

A search takes what follows the last dot of a name for its extension, and the choice of a grammar
takes the suffix of the path.  The two agree wherever a search finds something: there is an
extension, and something other than a dot stands before it.  So a search for known extensions finds
files with a grammar only, and each file of a survey is either extracted or counted as skipped.
-/

namespace CodeCatalog

/-! ## Extensions and their grammars -/

namespace Grammar

/-- A supported grammar with the extension among its own. -/
structure Owns (g : Grammar) (extension : Text) : Prop where
  supported : g ∈ supported
  mem : ∃ e ∈ g.extensions, Text.ofString e = extension

/-- No extension belongs to two grammars. -/
theorem nodup_byExtension : (byExtension.map Prod.fst).Nodup := by
  decide +kernel

theorem ofExtension?_eq_some_iff {extension : Text} {g : Grammar} :
    ofExtension? extension = some g ↔ g.Owns extension := by
  have hmem : (extension, g) ∈ byExtension ↔ g.Owns extension := by
    simp only [byExtension, List.mem_flatMap, List.mem_map, Prod.mk.injEq]
    constructor
    · rintro ⟨g', hg', e, he, rfl, rfl⟩
      exact ⟨hg', e, he, rfl⟩
    · rintro ⟨hg, e, he, rfl⟩
      exact ⟨g, hg, e, he, rfl, rfl⟩
  rw [← hmem, ofExtension?, lookup_eq_some_iff_mem nodup_byExtension]

theorem mem_knownExtensions_iff {extension : Text} :
    extension ∈ knownExtensions ↔ ∃ g : Grammar, g.Owns extension := by
  rw [knownExtensions, List.mem_mergeSort, List.mem_map]
  simp only [← ofExtension?_eq_some_iff, ofExtension?, lookup_eq_some_iff_mem nodup_byExtension]
  constructor
  · rintro ⟨⟨_, g⟩, hmem, rfl⟩
    exact ⟨g, hmem⟩
  · rintro ⟨g, hmem⟩
    exact ⟨_, hmem, rfl⟩

/-- Known extensions are normalised. -/
theorem normalExtension_of_mem_knownExtensions {extension : Text}
    (h : extension ∈ knownExtensions) : extension ≠ [] ∧ normalExtension extension = extension := by
  have hknown : ∀ e ∈ byExtension.map Prod.fst, e ≠ [] ∧ normalExtension e = e := by
    decide +kernel
  exact hknown extension (List.mem_mergeSort.1 h)

/-- Where a name has an extension, it is what the grammar is chosen by. -/
theorem ofPath?_eq_of_hasExtension {p : Path} {extension : Text}
    (h : p.name.HasExtension extension) (hne : extension ≠ []) :
    ofPath? p = ofExtension? (walkExtension p.name) := by
  obtain ⟨⟨stem, hname, hstem⟩, hlast⟩ := h
  have hcut : Path.cutSuffix p.name = (stem, Path.dot :: extension) := by
    obtain ⟨g, hg, -⟩ := hstem
    have hstart := List.length_pos_of_mem hg
    have hend := List.length_pos_of_ne_nil hne
    rw [hname, Path.cutSuffix, Path.lastDot?_append hlast]
    simp only [List.length_append, List.length_cons, List.take_left, List.drop_left]
    rw [if_pos (by omega)]
  have hdrop : (Path.dot :: Text.lower extension).dropWhile (· == Path.dot) =
      Text.lower extension := by
    rw [List.dropWhile_cons_of_pos (by simp)]
    refine Text.dropWhile_of_head? fun g hg => ?_
    have hmem : g ∈ Text.lower extension := List.mem_of_mem_head? hg
    have hdot : g ≠ Path.dot := by
      rintro rfl
      exact hlast (Text.dot_mem_of_mem_lower hmem)
    simpa using hdot
  rw [ofPath?, Path.suffix, hcut, Text.lower_dot_cons, hdrop, hname, walkExtension_of_cut hlast,
    if_pos hstem]

end Grammar

/-! ## Found files -/

namespace Workspace

variable {w : Workspace} {parser : Parser} {root p : Path} {extensions excluded : List Text}
  {bound : Value} {found : List Path}

/-- Files are found below folders only. -/
theorem exists_folder_of_findFiles (h : w.findFiles root extensions excluded = .ok found) :
    ∃ listable es, w.entry? root = .ok (some (.folder listable es)) := by
  unfold findFiles at h
  split at h
  · cases h
  · rename_i listable es hentry
    exact ⟨listable, es, hentry⟩
  · cases h

/-- The name of a found file has an extension that is among the normalised ones in small letters. -/
theorem exists_extension_of_findFiles (hw : w.root.WellFormed)
    (h : w.findFiles root extensions excluded = .ok found) (hp : p ∈ found) :
    ∃ extension, p.name.HasExtension extension ∧
      Text.lower extension ∈ normalExtensions extensions := by
  obtain ⟨listable, es, hroot⟩ := exists_folder_of_findFiles h
  obtain ⟨ways, rfl, -, hmem⟩ := exists_ways_of_findFiles hw hroot h
  obtain ⟨way, hway, rfl⟩ := List.mem_map.1 hp
  obtain ⟨dirs, name, rfl, hsought⟩ := (hmem way).1 hway
  have hname : (extended root (dirs ++ [name])).name = name := by
    simp [extended, Path.name, ← List.append_assoc]
  rw [hname]
  exact hsought.wanted

/-- Among known extensions a found file has one whose grammar is chosen for its path. -/
theorem exists_grammar_of_findFiles (hw : w.root.WellFormed)
    (hknown : ∀ e ∈ extensions, normalExtension e ∈ Grammar.knownExtensions)
    (h : w.findFiles root extensions excluded = .ok found) (hp : p ∈ found) :
    ∃ g : Grammar, g.Owns (walkExtension p.name) ∧ Grammar.ofPath? p = some g := by
  obtain ⟨extension, hextension, hmem⟩ := exists_extension_of_findFiles hw h hp
  obtain ⟨hne, e, he, hnormal⟩ := mem_normalExtensions.1 hmem
  have hwalk : walkExtension p.name = Text.lower extension := by
    obtain ⟨⟨stem, hname, hstem⟩, hlast⟩ := hextension
    rw [hname, walkExtension_of_cut hlast, if_pos hstem]
  have howned : walkExtension p.name ∈ Grammar.knownExtensions := by
    rw [hwalk, ← hnormal]
    exact hknown e he
  obtain ⟨g, hg⟩ := Grammar.mem_knownExtensions_iff.1 howned
  refine ⟨g, hg, ?_⟩
  rw [Grammar.ofPath?_eq_of_hasExtension hextension (by simpa using hne)]
  exact Grammar.ofExtension?_eq_some_iff.2 hg

/-- Known extensions may be normalised before a search. -/
theorem findFiles_normalExtensions
    (hknown : ∀ e ∈ extensions, normalExtension e ∈ Grammar.knownExtensions) :
    w.findFiles root (normalExtensions extensions) excluded =
      w.findFiles root extensions excluded := by
  have hsame : normalExtensions (normalExtensions extensions) = normalExtensions extensions := by
    refine normalExtensions_of_forall_eq (nodup_normalExtensions extensions) fun t ht => ?_
    obtain ⟨-, e, he, rfl⟩ := mem_normalExtensions.1 ht
    exact Grammar.normalExtension_of_mem_knownExtensions (hknown e he)
  rw [findFiles, findFiles, FileQuery.ofExtensions, FileQuery.ofExtensions, hsame]

/-! ## Surveyed files -/

/-- Entities are extracted from a file. -/
def isExtracted (w : Workspace) (parser : Parser) (bound : Value) (p : Path) : Bool :=
  match w.extract parser p bound with
  | .ok _ => true
  | .error _ => false

/-- A file with a grammar is either extracted or skipped. -/
theorem isSkipped_eq_not_isExtracted (hgrammar : (Grammar.ofPath? p).isSome = true)
    (hfault : ∀ f, w.extract parser p bound = .error f → f.isExtraction = true) :
    w.isSkipped parser bound p = !w.isExtracted parser bound p := by
  rw [isSkipped, isExtracted, hgrammar, Bool.true_and]
  cases hextract : w.extract parser p bound with
  | ok es => rfl
  | error f => exact hfault f hextract

/-- What a survey counts. -/
theorem exists_survey_of_findFiles (parser : Parser) (bound : Option Int) (level : Granularity)
    (hw : w.root.WellFormed)
    (h : w.findFiles root (normalExtensions extensions) excluded = .ok found) :
    ∃ s, w.survey parser root ⟨extensions, excluded, .ofBound bound, level⟩ = .ok s ∧
      s.found = found.length ∧ s.skipped = found.countP (w.isSkipped parser (.ofBound bound)) := by
  have hfault : ∀ p ∈ found, ∀ f, w.extract parser p (.ofBound bound) = .error f →
      f.isExtraction = true :=
    fun p hp f => isExtraction_of_extract (isSpellable_of_findFiles hw h hp)
  have hadded := Survey.addFiles_eq hfault { Survey.empty with found := found.length }
  rw [survey, h]
  change ∃ s, (Survey.addFiles w parser (.ofBound bound) _ found >>= fun s =>
    Outcome.ofData (s.merge level (.ofBound bound))) = .ok s ∧ _
  rw [hadded]
  change ∃ s, Outcome.ofData (Survey.merge level (.ofBound bound) _) = .ok s ∧ _
  rw [Survey.merge_ofBound]
  exact ⟨_, rfl, rfl, Nat.zero_add _⟩

/-- Where all extensions that are looked for are known, each found file gets the one grammar that
owns its extension, and a survey counts it as found and extracts it or counts it as skipped. -/
theorem findFiles_dispatches (w : Workspace) (parser : Parser) (root : Path)
    (extensions excluded : List Text) (found : List Path) (hw : w.root.WellFormed)
    (hknown : ∀ e ∈ extensions, normalExtension e ∈ Grammar.knownExtensions)
    (hfound : w.findFiles root extensions excluded = .ok found) :
    (∀ p ∈ found, ∃ g : Grammar, Grammar.ofPath? p = some g ∧ g.Owns (walkExtension p.name) ∧
      ∀ other : Grammar, other.Owns (walkExtension p.name) → other = g) ∧
    ∀ (bound : Option Int) (level : Granularity), ∃ s,
      w.survey parser root ⟨extensions, excluded, .ofBound bound, level⟩ = .ok s ∧
      s.found = found.length ∧
      s.found = found.countP (w.isExtracted parser (.ofBound bound)) + s.skipped := by
  constructor
  · intro p hp
    obtain ⟨g, howns, hg⟩ := exists_grammar_of_findFiles hw hknown hfound hp
    refine ⟨g, hg, howns, fun other hother => ?_⟩
    have hlookup := Grammar.ofExtension?_eq_some_iff.2 howns
    rw [Grammar.ofExtension?_eq_some_iff.2 hother] at hlookup
    exact Option.some.inj hlookup
  · intro bound level
    have hsurveyed : w.findFiles root (normalExtensions extensions) excluded = .ok found := by
      rw [findFiles_normalExtensions hknown, hfound]
    obtain ⟨s, hs, hlength, hskipped⟩ :=
      exists_survey_of_findFiles parser bound level hw hsurveyed
    refine ⟨s, hs, hlength, ?_⟩
    have hcount : found.countP (w.isSkipped parser (.ofBound bound)) =
        found.countP fun p => decide ¬w.isExtracted parser (.ofBound bound) p = true := by
      refine List.countP_congr fun p hp => ?_
      obtain ⟨g, -, hg⟩ := exists_grammar_of_findFiles hw hknown hfound hp
      rw [isSkipped_eq_not_isExtracted (by rw [hg]; rfl) fun f =>
        isExtraction_of_extract (isSpellable_of_findFiles hw hfound hp)]
      simp
    rw [hlength, hskipped, hcount]
    exact List.length_eq_countP_add_countP _

/-- A folder with names that hold dots at either end and next to each other. -/
def dottedNames : Workspace where
  root := .folder true [("..py", .file []), ("a.py.", .file []), ("b.rs", .file [0xFF]),
    ("x..Py", .file (Utf8.encode "import os\n"))]
  home := []

theorem wellFormed_dottedNames : dottedNames.root.WellFormed := by
  refine .folder (by decide) (by decide) fun m hm => ?_
  simp only [List.mem_cons, List.not_mem_nil, or_false] at hm
  rcases hm with rfl | rfl | rfl | rfl <;> exact .file _

theorem findFiles_dottedNames : dottedNames.findFiles ⟨[], []⟩ [".PY", "rs"] [] =
    .ok [⟨[], ["b.rs"]⟩, ⟨[], ["x..Py"]⟩] := by
  have hspelled : misspelled? (Path.text ⟨[], []⟩) = none := by
    decide
  have hentry : dottedNames.entry? ⟨[], []⟩ = .ok (some dottedNames.root) := by
    simp only [ entry?, locate, hspelled, locateFrom]
    rfl
  have hordered : (dottedNames.root.entries.map fun m => (m.1,
      (FileQuery.ofExtensions [".PY", "rs"] []).findIn ⟨[], []⟩ m)).Pairwise
        fun a b => a.1.atMost b.1 = true := by
    rw [List.pairwise_map]
    decide
  have hfind : dottedNames.root.find (.ofExtensions [".PY", "rs"] []) ⟨[], []⟩ =
      .ok [⟨[], ["b.rs"]⟩, ⟨[], ["x..Py"]⟩] := by
    refine (FileQuery.find_folder true dottedNames.root.entries).trans ?_
    rw [if_pos rfl, collectByName, List.mergeSort_of_pairwise hordered]
    rfl
  rw [findFiles_of_folder hentry rfl, hfind]
  rfl

theorem isKnown_dottedNames :
    ∀ e ∈ ([".PY", "rs"] : List Text), normalExtension e ∈ Grammar.knownExtensions := by
  have howned : ∀ e ∈ ([".PY", "rs"] : List Text), normalExtension e ∈
      Grammar.byExtension.map Prod.fst := by
    decide +kernel
  exact fun e he => List.mem_mergeSort.2 (howned e he)

theorem findFiles_dispatches_dottedNames : dottedNames.root.WellFormed ∧
    (∀ e ∈ ([".PY", "rs"] : List Text), normalExtension e ∈ Grammar.knownExtensions) ∧
    dottedNames.findFiles ⟨[], []⟩ [".PY", "rs"] [] =
      .ok [⟨[], ["b.rs"]⟩, ⟨[], ["x..Py"]⟩] ∧
    ∃ s, dottedNames.survey oneImport ⟨[], []⟩ ⟨[".PY", "rs"], [], .ofBound none, .fine⟩ = .ok s ∧
      s.found = 2 ∧
      s.found = ([⟨[], ["b.rs"]⟩, ⟨[], ["x..Py"]⟩] : List Path).countP
        (dottedNames.isExtracted oneImport (.ofBound none)) + s.skipped :=
  ⟨wellFormed_dottedNames, isKnown_dottedNames, findFiles_dottedNames,
    (findFiles_dispatches dottedNames oneImport ⟨[], []⟩ [".PY", "rs"] [] _ wellFormed_dottedNames
      isKnown_dottedNames findFiles_dottedNames).2 none .fine⟩

end Workspace

end CodeCatalog
