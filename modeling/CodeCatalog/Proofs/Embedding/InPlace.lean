import CodeCatalog.Proofs.Embedding.Refill
import CodeCatalog.Proofs.Workspace.Overwriting
set_option autoImplicit false

/-!
# Filling an index file in place

Filling the records of an index changes none of their strings and none of their lines.  So where an
index is filled in place, it is either left as it was, or written over, and then it ends as the
writing of entities over a file ends: it is lost if one of its entities cannot be written, and cut
off where there is no room for the rest.
-/

namespace CodeCatalog

variable {σ : Type}

/-! ## Filled entities -/

namespace Record

/-- An entity that is filled can be written if it could before. -/
theorem MayBeFilled.exists_entity {e : Entity Text} {r : Record} (h : MayBeFilled e.toRecord r) :
    ∃ e' : Entity Text, r = e'.toRecord ∧ (e'.IsWritable ↔ e.IsWritable) := by
  cases h with
  | kept _ => exact ⟨e, rfl, Iff.rfl⟩
  | @embedded text v _ _ =>
    exact ⟨{ e with embedding := v }, rfl, fun h => ⟨h.strings, h.lines⟩,
      fun h => ⟨h.strings, h.lines⟩⟩

theorem exists_entities_of_mayBeFilled {es : List (Entity Text)} {filled : List Record}
    (h : List.Forall₂ MayBeFilled (es.map Entity.toRecord) filled) :
    ∃ es' : List (Entity Text), filled = es'.map Entity.toRecord ∧
      ((∀ e ∈ es', e.IsWritable) ↔ ∀ e ∈ es, e.IsWritable) := by
  induction es generalizing filled with
  | nil =>
    cases h
    exact ⟨[], rfl, Iff.rfl⟩
  | cons e es ih =>
    obtain ⟨r, rest, hr, hrest, rfl⟩ := List.forall₂_cons_left_iff.1 h
    obtain ⟨e', rfl, he⟩ := hr.exists_entity
    obtain ⟨es', rfl, hes⟩ := ih hrest
    exact ⟨e' :: es', rfl, by rw [List.forall_mem_cons, List.forall_mem_cons, he, hes]⟩

theorem jobs_eq_nil_of_not_pending {rs : List Record} (h : rs.any isPending = false) :
    jobs rs = [] := by
  refine List.eq_nil_iff_forall_not_mem.2 fun job hjob => ?_
  obtain ⟨r, hr, hpending⟩ := exists_pending_of_mem_jobs hjob
  exact List.any_eq_false.1 h r hr (isPending_iff.2 ⟨_, hpending⟩)

end Record

namespace Surroundings

variable {settings : Value} {given : Embedder.Given} {options : FillOptions} {input output : Path}
  {rs : List Record} {w : Surroundings σ}

/-! ## The stages of filling an index file -/

theorem files_of_fillRecords (settings : Value) (options : FillOptions) (rs : List Record)
    (w : Surroundings σ) :
    (fillRecords settings options rs w).2.files = w.files ∧
      (fillRecords settings options rs w).2.access = w.access := by
  by_cases hjobs : Record.jobs rs = []
  · rw [fillRecords_of_no_jobs hjobs]
    exact ⟨rfl, rfl⟩
  · obtain ⟨embeddingClients, ⟨fault, hfault⟩ | ⟨e, policy, permits, hbatch⟩⟩ :=
      fillRecords_fault_or_batch settings options w hjobs
    · rw [hfault]
      exact ⟨rfl, rfl⟩
    · rw [hbatch]
      exact ⟨rfl, rfl⟩

/-- The embedder of the settings, if one is needed for records. -/
def embedderIfPending (settings : Value) (given : Embedder.Given) (rs : List Record) :
    Work σ (Option Embedder) :=
  if rs.any Record.isPending then some <$> setUpEmbedder settings given else pure none

theorem files_of_embedderIfPending (settings : Value) (given : Embedder.Given) (rs : List Record)
    (w : Surroundings σ) :
    (embedderIfPending settings given rs w).2.files = w.files ∧
      (embedderIfPending settings given rs w).2.access = w.access := by
  unfold embedderIfPending
  split
  · change ((setUpEmbedder settings given >>= fun e => pure (some e)) w).2.files = w.files ∧
      ((setUpEmbedder settings given >>= fun e => pure (some e)) w).2.access = w.access
    cases hmade : Embedder.ofSettings settings given with
    | error fault =>
      rw [Action.bind_of_error (setUpEmbedder_of_error hmade)]
      exact ⟨rfl, rfl⟩
    | ok e =>
      rw [Action.bind_of_ok (setUpEmbedder_of_ok hmade)]
      exact ⟨rfl, rfl⟩
  · exact ⟨rfl, rfl⟩

theorem fillIndexFile_of_stages (hread : IndexFile.read w.files input = .ok rs) (hrs : rs ≠ []) :
    fillIndexFile settings given input output w =
      (embedderIfPending settings given rs >>= fun embedder =>
        fillRecords settings { embedder } rs >>= fun filled =>
        writeIndex filled output >>= fun _ =>
        pure (filled.countP fun r => r.embedding.isSome)) w := by
  have hempty : rs.isEmpty = false := by simpa using hrs
  have hask : ask (fun s => IndexFile.read s.files input) w = (.ok rs, w) :=
    ask_eq_ok.2 ⟨hread, rfl⟩
  rw [fillIndexFile, Action.bind_of_ok hask, hempty]
  simp only [Bool.false_eq_true, if_false, embedderIfPending]
  split <;> rfl

/-- An index of which no record needs a vector is written as it is. -/
theorem fillIndexFile_of_not_pending (settings : Value) (given : Embedder.Given) (output : Path)
    (hread : IndexFile.read w.files input = .ok rs) (hrs : rs ≠ [])
    (hpending : rs.any Record.isPending = false) :
    fillIndexFile settings given input output w =
      (writeIndex rs output >>= fun _ =>
        pure (rs.countP fun r => r.embedding.isSome)) w := by
  have hembedder : embedderIfPending settings given rs w = (.ok none, w) := by
    rw [embedderIfPending, hpending]
    rfl
  rw [fillIndexFile_of_stages hread hrs, Action.bind_of_ok hembedder,
    Action.bind_of_ok (fillRecords_of_no_jobs (Record.jobs_eq_nil_of_not_pending hpending))]

/-- An index that was read is filled up to the writing, or the files are left alone. -/
theorem fillIndexFile_cases (settings : Value) (given : Embedder.Given) (output : Path)
    (hread : IndexFile.read w.files input = .ok rs) :
    (fillIndexFile settings given input output w).2.files = w.files ∨
      ∃ filled, List.Forall₂ Record.MayBeFilled rs filled ∧
        (fillIndexFile settings given input output w).1 =
          (IndexFile.write filled output w.access w.files).1.map
            (fun _ => filled.countP fun r => r.embedding.isSome) ∧
        (fillIndexFile settings given input output w).2.files =
          (IndexFile.write filled output w.access w.files).2 := by
  by_cases hrs : rs = []
  · subst hrs
    refine .inl ?_
    rw [fillIndexFile, Action.bind_of_ok (ask_eq_ok.2 ⟨hread, rfl⟩)]
    rfl
  rw [fillIndexFile_of_stages hread hrs]
  obtain ⟨hfiles, haccess⟩ := files_of_embedderIfPending settings given rs w
  rcases hembedder : embedderIfPending settings given rs w with ⟨fault | embedder, w₁⟩
  · rw [hembedder] at hfiles
    rw [Action.bind_of_error hembedder]
    exact .inl hfiles
  rw [hembedder] at hfiles haccess
  rw [Action.bind_of_ok hembedder]
  obtain ⟨hkept, hallowed⟩ := files_of_fillRecords settings { embedder } rs w₁
  rcases hfill : fillRecords settings { embedder } rs w₁ with ⟨fault | filled, w₂⟩
  · rw [hfill] at hkept
    rw [Action.bind_of_error hfill]
    exact .inl (hkept.trans hfiles)
  rw [hfill] at hkept hallowed
  rw [Action.bind_of_ok hfill]
  obtain ⟨seen, hseen⟩ := fills_of_fillRecords hfill
  refine .inr ⟨filled, hseen.mayBeFilled, ?_⟩
  have hsame : w₂.files = w.files := hkept.trans hfiles
  have hsystem : w₂.access = w.access := hallowed.trans haccess
  rw [← hsame, ← hsystem]
  rcases hwrite : IndexFile.write filled output w₂.access w₂.files with ⟨fault | written, files⟩
  · rw [Action.bind_of_error (writeIndex_of_eq hwrite)]
    exact ⟨rfl, rfl⟩
  · rw [Action.bind_of_ok (writeIndex_of_eq hwrite)]
    exact ⟨rfl, rfl⟩

/-- An index that is filled in place is left alone, or filled entities are written over it. -/
theorem fillIndexFile_inPlace {es : List (Entity Text)} {p : Path} {old : Bytes} {way : List Text}
    {result : Outcome Nat} {w' : Surroundings σ} (hw : w.files.HasHome)
    (hmade : w.files.locate .made p = .ok ⟨way, some (.file old)⟩)
    (hprepared : IndexFile.prepareFolder p w.access w.files = (.ok (), w.files))
    (hread : IndexFile.read w.files p = .ok (es.map Entity.toRecord))
    (hfill : fillIndexFile settings given p p w = (result, w')) :
    w'.files = w.files ∨
      w.access.refusal? way = none ∧
        ∃ es' : List (Entity Text),
          List.Forall₂ Record.MayBeFilled (es.map Entity.toRecord) (es'.map Entity.toRecord) ∧
          ((∀ e ∈ es', e.IsWritable) ↔ ∀ e ∈ es, e.IsWritable) ∧
          IndexFile.Overwrites w.access way p es' (result.map fun _ => ()) w'.files := by
  have hcases := fillIndexFile_cases settings given p hread
  rw [hfill] at hcases
  rcases hcases with hkept | ⟨filled, hfilled, hresult, hfiles⟩
  · exact .inl hkept
  dsimp only at hresult hfiles
  cases hrefusal : w.access.refusal? way with
  | some c =>
    rw [IndexFile.write_of_refusal hmade hprepared hrefusal] at hfiles
    exact .inl hfiles
  | none =>
    obtain ⟨es', rfl, hsame⟩ := Record.exists_entities_of_mayBeFilled hfilled
    obtain ⟨outcome, files, hwrite, hover⟩ :=
      IndexFile.write_overwrites hw hmade hprepared hrefusal es'
    rw [hwrite] at hresult hfiles
    refine .inr ⟨rfl, es', hfilled, hsame, ?_⟩
    have houtcome : (result.map fun _ => ()) = outcome := by
      rw [hresult]
      cases outcome <;> rfl
    rwa [houtcome, hfiles]

end Surroundings

namespace IndexFile

variable {w : Workspace} {p : Path} {old : Bytes}

/-- Over a file that can be read entities are written as follows.  If the system refuses to open
it, nothing changes.  Otherwise the file is emptied, and all of the document is written exactly if
each of the entities can be written and there is room; if not, the fault is told, and what is left
is what was written before.  Where an index is filled in place, it is left alone, or filled entities
are written over it in that way.  An index that is lost is not what was there before. -/
theorem written_or_lost (hw : w.HasHome) (hold : w.read p = .ok old) (access : Access)
    (es : List (Entity Text)) :
    ∃ way, w.locate .followed p = .ok ⟨way, some (.file old)⟩ ∧
      (∀ c, access.refusal? way = some c →
        write (es.map Entity.toRecord) p access w =
          (.error (.writeFailed p.text (.file ⟨c, p.text⟩)), w)) ∧
      (access.refusal? way = none →
        ∃ result w', write (es.map Entity.toRecord) p access w = (result, w') ∧
          Overwrites access way p es result w') ∧
      (∀ (σ : Type) (s s' : Surroundings σ) (settings : Value) (given : Embedder.Given)
        (filling : Outcome Nat), s.files = w → s.access = access →
        read w p = .ok (es.map Entity.toRecord) →
        Surroundings.fillIndexFile settings given p p s = (filling, s') →
        s'.files = w ∨
          access.refusal? way = none ∧
            ∃ es' : List (Entity Text),
              List.Forall₂ Record.MayBeFilled (es.map Entity.toRecord)
                (es'.map Entity.toRecord) ∧
              ((∀ e ∈ es', e.IsWritable) ↔ ∀ e ∈ es, e.IsWritable) ∧
              Overwrites access way p es' (filling.map fun _ => ()) s'.files) ∧
      ∀ rs w', read w p = .ok rs → IsLost w' p → w'.read p ≠ .ok old := by
  obtain ⟨way, hfound, hmade, hprepared⟩ := Workspace.exists_way_of_read hw hold access
  refine ⟨way, hfound, ?_, ?_, ?_, ?_⟩
  · intro c hrefusal
    exact write_of_refusal hmade hprepared hrefusal
  · intro hallowed
    exact write_overwrites hw hmade hprepared hallowed es
  · rintro σ s s' settings given filling rfl rfl hread hfill
    exact Surroundings.fillIndexFile_inPlace hw hmade hprepared hread hfill
  · intro rs w' hread hlost
    exact hlost.read_ne hold hread

/-! ## An index with a lone surrogate -/

/-- The text of an index of a function whose name is an escaped lone surrogate. -/
def loneIndex : Text :=
  "[\x7b\"name\": \"\\ud800\", \"signature\": \"def f()\", \"kind\": \"Function\", \"line\": 1, "
    ++ "\"line_from\": 1, \"line_to\": 2, \"context\": \x7b\"file_path\": \"a.py\", "
    ++ "\"file_name\": \"a.py\", \"snippet\": \"\"\x7d\x7d]"

/-- The function of that index. -/
def loneEntity : Entity Text where
  name := [.surrogate 0]
  signature := "def f()"
  kind := Kind.function
  docstring := none
  line := 1
  lineFrom := 1
  lineTo := 2
  context := ⟨"a.py", "a.py", [], none, none⟩
  embedding := none

/-- A tree of that index. -/
def loneWorkspace : Workspace := ⟨.folder true [("index.json", .file (Utf8.encode loneIndex))], []⟩

/-- The path of that index. -/
def lonePath : Path := ⟨[], ["index.json"]⟩

theorem hasHome_loneWorkspace : loneWorkspace.HasHome := ⟨true, _, rfl⟩

theorem read_loneWorkspace : loneWorkspace.read lonePath = .ok (Utf8.encode loneIndex) := by
  have hspelled : Workspace.misspelled? lonePath.text = none := by decide
  have hlocated : Workspace.locateFrom loneWorkspace.root .followed Workspace.maxLinks []
      ["index.json"] = .ok ⟨["index.json"], some (.file (Utf8.encode loneIndex))⟩ := by
    rw [Workspace.locateFrom]
    rfl
  have hfound : loneWorkspace.locate .followed lonePath =
      .ok ⟨["index.json"], some (.file (Utf8.encode loneIndex))⟩ :=
    Workspace.locate_eq_ok.2 ⟨hspelled, hlocated⟩
  simp only [Workspace.read, hfound]

theorem readWithin_loneIndex :
    (Value.readWithin maxNesting loneIndex.chars).toOption.bind Record.entitiesOf? =
      some [loneEntity] := by
  decide +kernel

/-- The index is read as that function. -/
theorem readIndex_loneWorkspace :
    read loneWorkspace lonePath = .ok ([loneEntity].map Entity.toRecord) := by
  obtain ⟨v, hv, hentities⟩ := Option.bind_eq_some_iff.1 readWithin_loneIndex
  have hv : Value.readWithin maxNesting loneIndex.chars = .ok v := by
    cases h : Value.readWithin maxNesting loneIndex.chars with
    | error flaw => simp [h, Except.toOption] at hv
    | ok w => simpa [h, Except.toOption] using hv
  refine read_of_entitiesOf? (v := v) ?_ hentities
  rw [readDocument, read_loneWorkspace]
  simp only [Utf8.decode_encode, hv]

/-- Writing that function over its own index fails, and leaves something else in the file; so does
filling the index in place. -/
theorem write_loneEntity_destroys :
    loneWorkspace.HasHome ∧ loneWorkspace.read lonePath = .ok (Utf8.encode loneIndex) ∧
      read loneWorkspace lonePath = .ok ([loneEntity].map Entity.toRecord) ∧
      ∃ fault w', write ([loneEntity].map Entity.toRecord) lonePath {} loneWorkspace =
          (.error fault, w') ∧ w'.read lonePath ≠ .ok (Utf8.encode loneIndex) ∧
        ∀ (σ : Type) (s : Surroundings σ) (settings : Value) (given : Embedder.Given),
          s.files = loneWorkspace → s.access = {} →
          Surroundings.fillIndexFile settings given lonePath lonePath s =
            (.error fault, { s with files := w' }) := by
  obtain ⟨way, -, hmade, hprepared⟩ :=
    Workspace.exists_way_of_read hasHome_loneWorkspace read_loneWorkspace {}
  have hstop : (documentBytes (Record.document ([loneEntity].map Entity.toRecord))).2 =
      some (.unencodable ⟨1, 0, 1⟩) := by decide +kernel
  have hother : Utf8.encode (writtenText [loneEntity]) ≠ Utf8.encode loneIndex := by
    decide +kernel
  obtain ⟨result, w', hwrite, hread, ⟨hroom, -⟩ | ⟨hroom, ⟨hnone, -⟩ | ⟨f, hf, rfl⟩⟩⟩ :=
    write_over_opened hasHome_loneWorkspace hmade hprepared rfl ([loneEntity].map Entity.toRecord)
  · exact absurd (Access.hasRoom_of_unbounded rfl) hroom
  · cases hstop.symm.trans hnone
  rw [Access.kept_of_hasRoom hroom, bytes_documentBytes] at hread
  refine ⟨hasHome_loneWorkspace, read_loneWorkspace, readIndex_loneWorkspace, _, w', hwrite, ?_, ?_⟩
  · rw [hread]
    exact fun h => hother (Except.ok.inj h)
  · intro σ s settings given hfiles haccess
    have hindex : read s.files lonePath = .ok ([loneEntity].map Entity.toRecord) := by
      rw [hfiles]
      exact readIndex_loneWorkspace
    have hstopped : write ([loneEntity].map Entity.toRecord) lonePath s.access s.files =
        (.error (.writeFailed lonePath.text (.data f)), w') := by
      rw [hfiles, haccess, hwrite]
    rw [Surroundings.fillIndexFile_of_not_pending settings given lonePath hindex
      (List.cons_ne_nil _ _) rfl, Action.bind_of_error (Surroundings.writeIndex_of_eq hstopped)]

theorem not_isWritable_loneEntity : ¬loneEntity.IsWritable := fun h =>
  absurd (h.strings [.surrogate 0] (by decide)) (by decide)

/-- Where the system allows everything, the index is lost where that function is written over it. -/
theorem written_or_lost_loneEntity :
    loneWorkspace.HasHome ∧ loneWorkspace.read lonePath = .ok (Utf8.encode loneIndex) ∧
      read loneWorkspace lonePath = .ok ([loneEntity].map Entity.toRecord) ∧
      ∃ f w', write ([loneEntity].map Entity.toRecord) lonePath {} loneWorkspace =
          (.error (.writeFailed lonePath.text (.data f)), w') ∧ IsLost w' lonePath := by
  obtain ⟨way, -, -, hwritten, -⟩ :=
    written_or_lost hasHome_loneWorkspace read_loneWorkspace {} [loneEntity]
  obtain ⟨result, w', hwrite, hover⟩ := hwritten rfl
  refine ⟨hasHome_loneWorkspace, read_loneWorkspace, readIndex_loneWorkspace, ?_⟩
  cases hover with
  | completed hall =>
    exact absurd (hall loneEntity (List.mem_cons_self ..)) not_isWritable_loneEntity
  | stopped _ _ _ hlost => exact ⟨_, w', hwrite, hlost⟩
  | noRoom hroom => exact absurd (Access.hasRoom_of_unbounded rfl) hroom

end IndexFile

end CodeCatalog
