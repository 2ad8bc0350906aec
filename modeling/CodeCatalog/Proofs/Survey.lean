import CodeCatalog.Proofs.Chunk.Checked
import CodeCatalog.Proofs.Extraction.Walk
import CodeCatalog.Proofs.Workspace.Discovery
import CodeCatalog.Survey
set_option autoImplicit false

/-!
# Surveys file by file

A survey merges the entities of all files at once, at its end.  In a directory tree no two found
files have one path, so this gives what merging each file by itself gives, in the order in which
the files are found.  A found file that cannot be extracted has a fault of its own: it gives
nothing and is counted, and the other files give what they would give without it.
-/

namespace CodeCatalog

theorem SourceFile.entitiesWithin_ofBound (f : SourceFile) (root : Node) (bound : Option Int) :
    f.entitiesWithin root (.ofBound bound) = .ok (f.entities root bound) := by
  rw [entitiesWithin, Value.wholeBound?_ofBound]

namespace Workspace

variable {w : Workspace} {parser : Parser} {p : Path} {bound : Option Int}

/-! ## One file -/

theorem path_of_source {f : SourceFile} (h : w.source p = .ok f) : f.path = p := by
  unfold source at h
  split at h
  · cases h
  · split at h
    · cases h
    · split at h <;> cases h
      rfl

theorem isExtraction_of_source {f : Fault} (hp : p.text.IsSpellable)
    (h : w.source p = .error f) : f.isExtraction = true := by
  unfold source at h
  split at h
  · cases h
    rfl
  · split at h
    · rename_i hread
      cases h
      rw [isSystem_of_read hp hread]
      rfl
    · split at h <;> cases h
      rfl

/-- Extraction from a file whose path can be spelled fails by a fault of that file. -/
theorem isExtraction_of_extract {f : Fault} (hp : p.text.IsSpellable)
    (h : w.extract parser p (.ofBound bound) = .error f) : f.isExtraction = true := by
  unfold extract at h
  cases hsource : w.source p with
  | error g =>
    rw [hsource] at h
    cases h
    exact isExtraction_of_source hp hsource
  | ok file =>
    rw [hsource] at h
    change (parser file.grammar.name file.source).entities file (.ofBound bound) = .error f at h
    unfold ParserReply.entities at h
    split at h
    · rw [SourceFile.entitiesWithin_ofBound] at h
      cases h
    · cases h
      rfl
    · cases h
      rfl

/-- Extraction that succeeds has found a tree, and gives the entities of it. -/
theorem exists_tree_of_extract {es : List (Entity Text)}
    (h : w.extract parser p (.ofBound bound) = .ok es) :
    ∃ f root, w.source p = .ok f ∧ parser f.grammar.name f.source = .tree root ∧
      es = f.entities root bound := by
  unfold extract at h
  cases hsource : w.source p with
  | error g =>
    rw [hsource] at h
    cases h
  | ok file =>
    rw [hsource] at h
    change (parser file.grammar.name file.source).entities file (.ofBound bound) = .ok es at h
    cases hreply : parser file.grammar.name file.source with
    | tree root =>
      rw [hreply, ParserReply.entities, SourceFile.entitiesWithin_ofBound] at h
      cases h
      exact ⟨file, root, rfl, hreply, rfl⟩
    | noTree =>
      rw [hreply] at h
      cases h
    | failed report =>
      rw [hreply] at h
      cases h

theorem filePath_of_extract {es : List (Entity Text)} {e : Entity Text}
    (h : w.extract parser p (.ofBound bound) = .ok es) (he : e ∈ es) : e.filePath = p.text := by
  obtain ⟨f, root, hsource, _, rfl⟩ := exists_tree_of_extract h
  rw [SourceFile.filePath_of_mem_entities he, path_of_source hsource]

/-- The entities that are extracted from a found file: none without a grammar or after a fault. -/
def extracted (w : Workspace) (parser : Parser) (bound : Value) (p : Path) :
    List (Entity Text) :=
  if (Grammar.ofPath? p).isSome then
    match w.extract parser p bound with
    | .ok es => es
    | .error _ => []
  else []

/-- A found file is skipped: there is a grammar for it, and it has a fault of its own. -/
def isSkipped (w : Workspace) (parser : Parser) (bound : Value) (p : Path) : Bool :=
  (Grammar.ofPath? p).isSome &&
    match w.extract parser p bound with
    | .ok _ => false
    | .error f => f.isExtraction

theorem filePath_of_mem_extracted {e : Entity Text}
    (h : e ∈ w.extracted parser (.ofBound bound) p) : e.filePath = p.text := by
  unfold extracted at h
  split at h
  · split at h
    · rename_i hes
      exact filePath_of_extract hes h
    · exact absurd h List.not_mem_nil
  · exact absurd h List.not_mem_nil

end Workspace

/-! ## All files -/

namespace Survey

variable {w : Workspace} {parser : Parser} {bound : Value} {level : Granularity}

/-- One file adds what is extracted from it, or is counted as skipped. -/
theorem addFile_eq {p : Path}
    (hfault : ∀ f, w.extract parser p bound = .error f → f.isExtraction = true) (s : Survey) :
    (if (Grammar.ofPath? p).isSome then s.add (w.extract parser p bound) else .ok s) =
      .ok { s with
        entities := s.entities ++ w.extracted parser bound p
        skipped := s.skipped + (w.isSkipped parser bound p).toNat } := by
  unfold Workspace.extracted Workspace.isSkipped
  cases hgrammar : (Grammar.ofPath? p).isSome with
  | false => simp
  | true =>
    cases hextract : w.extract parser p bound with
    | ok es => simp [add]
    | error f => simp [add, hfault f hextract]

theorem addFiles_eq {files : List Path}
    (hfault : ∀ p ∈ files, ∀ f, w.extract parser p bound = .error f → f.isExtraction = true)
    (s : Survey) :
    addFiles w parser bound s files =
      .ok { s with
        entities := s.entities ++ files.flatMap (w.extracted parser bound)
        skipped := s.skipped + files.countP (w.isSkipped parser bound) } := by
  induction files generalizing s with
  | nil => simp [addFiles, pure, Except.pure]
  | cons p files ih =>
    have hrest := ih (fun r hr => hfault r (List.mem_cons_of_mem _ hr))
    unfold addFiles at hrest ⊢
    rw [List.foldlM_cons, addFile_eq (hfault p List.mem_cons_self)]
    refine (hrest _).trans ?_
    rw [List.flatMap_cons, List.countP_cons, List.append_assoc]
    cases w.isSkipped parser bound p <;> simp [Nat.add_assoc, Nat.add_comm]

theorem merge_ofBound (bound : Option Int) (s : Survey) :
    s.merge level (.ofBound bound) =
      .ok { s with entities := mergeEntities level bound s.entities } := by
  obtain ⟨entities, found, skipped⟩ := s
  cases entities with
  | nil => rfl
  | cons e es =>
    rw [merge, Value.wholeBound?_ofBound]
    rfl

end Survey

namespace Workspace

/-- What a found file gives to a survey by itself. -/
def contribution (w : Workspace) (parser : Parser) (level : Granularity) (bound : Option Int)
    (p : Path) : List (Entity Text) :=
  if (Grammar.ofPath? p).isSome then
    match w.extract parser p (.ofBound bound) with
    | .ok es => mergeEntities level bound es
    | .error _ => []
  else []

theorem contribution_eq (w : Workspace) (parser : Parser) (level : Granularity)
    (bound : Option Int) (p : Path) :
    w.contribution parser level bound p =
      mergeEntities level bound (w.extracted parser (.ofBound bound) p) := by
  unfold contribution extracted
  split
  · split <;> rfl
  · rfl

/-- The survey of found files, each by itself. -/
def surveyOf (w : Workspace) (parser : Parser) (level : Granularity) (bound : Option Int)
    (files : List Path) : Survey where
  entities := files.flatMap (w.contribution parser level bound)
  found := files.length
  skipped := files.countP (w.isSkipped parser (.ofBound bound))

/-- A survey of a directory tree gives what the found files give by themselves, in the order in
which they are found, and whatever goes wrong with one of them is a fault of that file alone. -/
theorem survey_eq_surveyOf (w : Workspace) (parser : Parser) (root : Path)
    (extensions excluded : List Text) (bound : Option Int) (level : Granularity)
    (hw : w.root.WellFormed) :
    w.survey parser root ⟨extensions, excluded, .ofBound bound, level⟩ =
      (w.findFiles root (normalExtensions extensions) excluded).map
        (w.surveyOf parser level bound) ∧
    ∀ files, w.findFiles root (normalExtensions extensions) excluded = .ok files →
      ∀ p ∈ files, ∀ f, w.extract parser p (.ofBound bound) = .error f →
        f.isExtraction = true := by
  have hfault : ∀ files, w.findFiles root (normalExtensions extensions) excluded = .ok files →
      ∀ p ∈ files, ∀ f, w.extract parser p (.ofBound bound) = .error f →
        f.isExtraction = true := by
    intro files hfiles p hp f hf
    exact isExtraction_of_extract (isSpellable_of_findFiles hw hfiles hp) hf
  refine ⟨?_, hfault⟩
  rw [survey]
  cases hfiles : w.findFiles root (normalExtensions extensions) excluded with
  | error f => rfl
  | ok files =>
    have hmerge : mergeEntities level bound (files.flatMap (w.extracted parser (.ofBound bound))) =
        files.flatMap (w.contribution parser level bound) := by
      have hdistinct := (foundBelow_of_findFiles hw hfiles).1.pairwise_text_ne
      rw [mergeEntities_flatMap (fun p e he => filePath_of_mem_extracted he) hdistinct]
      exact List.flatMap_congr fun p _ => (contribution_eq w parser level bound p).symm
    have hadded := Survey.addFiles_eq (hfault files hfiles)
      { Survey.empty with found := files.length }
    change (Survey.addFiles w parser (.ofBound bound) { Survey.empty with found := files.length }
      files >>= fun s => Outcome.ofData (s.merge level (.ofBound bound))) = _
    rw [hadded]
    change Outcome.ofData (Survey.merge level (.ofBound bound) _) = _
    rw [Survey.merge_ofBound]
    simp only [Survey.empty, List.nil_append, Nat.zero_add, hmerge]
    rfl

/-- A folder in which one of two files is no UTF-8. -/
def oneBroken : Workspace where
  root := .folder true [("b.py", .file [0xFF]), ("a.py", .file (Utf8.encode "import os\n"))]
  home := []

theorem wellFormed_oneBroken : oneBroken.root.WellFormed := by
  refine .folder (by decide) (by decide) fun m hm => ?_
  rcases List.mem_pair.1 hm with rfl | rfl
  · exact .file _
  · exact .file _

/-- A parser that takes every file for one import. -/
def oneImport : Parser := fun _ source =>
  .tree ⟨"module", true, "", 0, source.length,
    [⟨"import_statement", true, "", 0, source.length - 1, []⟩]⟩

theorem survey_eq_surveyOf_oneBroken : oneBroken.root.WellFormed ∧
    oneBroken.survey oneImport ⟨[], []⟩ ⟨["py"], usualExcluded, .ofBound none, .coarse⟩ =
      (oneBroken.findFiles ⟨[], []⟩ (normalExtensions ["py"]) usualExcluded).map
        (oneBroken.surveyOf oneImport .coarse none) ∧
    ∀ files, oneBroken.findFiles ⟨[], []⟩ (normalExtensions ["py"]) usualExcluded = .ok files →
      ∀ p ∈ files, ∀ f, oneBroken.extract oneImport p (.ofBound none) = .error f →
        f.isExtraction = true :=
  ⟨wellFormed_oneBroken,
    survey_eq_surveyOf oneBroken oneImport ⟨[], []⟩ ["py"] usualExcluded none .coarse
      wellFormed_oneBroken⟩

end Workspace

end CodeCatalog
