import CodeCatalog.Proofs.Entity.Payload
import CodeCatalog.Proofs.Value.Written
import CodeCatalog.Proofs.Workspace.Put
set_option autoImplicit false

/-!
# Index files that are read back

Entities that were written to an index file are read back from it as they were: their document was
printed to its end and holds no lone surrogate, a reader finds the same document, and each item of
it is read as the entity that it stands for.  Only the numbers in the embeddings have to be read
back from their texts.
-/

namespace CodeCatalog

/-! ## The bytes of a document -/

/-- A document that was written to its end was printed to its end, and holds no lone surrogate. -/
theorem exists_text_of_documentBytes {v : Value} (h : (documentBytes v).2 = none) :
    ∃ t, (v.print 0).text = .ok t ∧ t.isScalar = true ∧ (documentBytes v).1 = Utf8.encode t := by
  have hwritable := documentBytes_eq_none.1 h
  exact ⟨_, hwritable.text_eq, Value.Printed.isScalar_written _, bytes_documentBytes v⟩

/-! ## The document of entities -/

section

open Value

variable {e : Entity Text} {depth : Nat}

theorem isReadable_ofOption_text (t : Option Text) :
    IsReadable depth (ofOption (t.map .text)) := by
  cases t with
  | none => exact .null
  | some t => exact .text t

theorem isReadable_context (c : Context Text) : IsReadable (depth + 1) (c.map .text).toValue := by
  have hkeys : (["module", "file_path", "file_name", "enclosing_type_name", "snippet"] :
      List Text).Nodup := by decide
  refine .object hkeys ?_
  simp only [List.forall_mem_cons, Context.map]
  exact ⟨isReadable_ofOption_text _, .text _, .text _, isReadable_ofOption_text _, .text _, by simp⟩

theorem isReadable_payloadMembers (e : Entity Text) :
    ∀ m ∈ e.toRecord.payloadMembers, IsReadable (depth + 1) m.2 := by
  simp only [Record.payloadMembers, List.forall_mem_cons, Entity.toRecord, Entity.map]
  exact ⟨.text _, .text _, .text _, isReadable_ofOption_text _, .int _, .int _, .int _,
    isReadable_context _, by simp⟩

/-- The numbers of an entity's embedding are read back from their texts. -/
def Entity.IsExact (e : Entity Text) : Prop := ∀ xs ∈ e.embedding, ∀ x ∈ xs, Value.IsExact x

theorem Entity.IsExact.isReadable (h : e.IsExact) : IsReadable (depth + 2) e.toRecord.toValue := by
  cases hxs : e.embedding with
  | none =>
    have hvalue : e.toRecord.toValue = .object e.toRecord.payloadMembers := by
      simp [Record.toValue, Entity.toRecord, Entity.map, hxs, Record.payload]
    have hkeys : (["name", "signature", "kind", "docstring", "line", "line_from", "line_to",
        "context"] : List Text).Nodup := by decide
    rw [hvalue]
    exact .object hkeys (isReadable_payloadMembers e)
  | some xs =>
    have hvalue : e.toRecord.toValue = .object (e.toRecord.payloadMembers ++
        [(Text.ofString "embedding", list (xs.map float))]) := by
      simp [Record.toValue, Entity.toRecord, Entity.map, hxs]
    have hkeys : (["name", "signature", "kind", "docstring", "line", "line_from", "line_to",
        "context", "embedding"] : List Text).Nodup := by decide
    have hlist : IsReadable (depth + 1) (list (xs.map float)) := by
      refine .list fun v hv => ?_
      obtain ⟨x, hx, rfl⟩ := List.mem_map.1 hv
      exact .float (h xs hxs x hx)
    rw [hvalue]
    refine .object hkeys (List.forall_mem_append.2 ⟨isReadable_payloadMembers e, ?_⟩)
    simpa using hlist

theorem isReadable_document {es : List (Entity Text)} (h : ∀ e ∈ es, e.IsExact) :
    IsReadable (depth + 3) (Record.document (es.map Entity.toRecord)) := by
  refine .list fun v hv => ?_
  rw [List.map_map] at hv
  obtain ⟨e, he, rfl⟩ := List.mem_map.1 hv
  exact (h e he).isReadable

end

namespace IndexFile

variable {access : Access} {p : Path} {w w' : Workspace}

theorem prepareFolder_hasHome (hw : w.HasHome) : (prepareFolder p access w).2.HasHome := by
  unfold prepareFolder
  split
  · exact hw
  · exact hw.ensureFolders

/-- What was written to its end fills the file that was opened for it. -/
theorem bytes_of_write {rs : List Record} (hw : w.HasHome)
    (h : write rs p access w = (.ok (), w')) :
    w'.read p = .ok (documentBytes (Record.document rs)).1 ∧
      (documentBytes (Record.document rs)).2 = none := by
  unfold write at h
  have hprepared : (prepareFolder p access w).2.HasHome := prepareFolder_hasHome hw
  split at h
  · cases h
  · rename_i made hmade
    rw [hmade] at hprepared
    split at h
    · cases h
    · rename_i way opened hopened
      dsimp only at h
      split at h
      · cases h
      · rename_i hkept
        split at h
        · rename_i hcomplete
          cases h
          rw [Access.length_kept_lt_iff, not_not] at hkept
          rw [Access.kept_of_hasRoom hkept]
          exact ⟨Workspace.read_fill hprepared hopened, hcomplete⟩
        · cases h

/-- Where the working folder is there, entities whose numbers are read back from their texts are
read back from the file to which they were written. -/
theorem read_of_write {es : List (Entity Text)} (hw : w.HasHome) (hexact : ∀ e ∈ es, e.IsExact)
    (h : write (es.map Entity.toRecord) p access w = (.ok (), w')) :
    read w' p = .ok (es.map Entity.toRecord) := by
  obtain ⟨hbytes, hcomplete⟩ := bytes_of_write hw h
  obtain ⟨t, ht, hscalar, hencode⟩ := exists_text_of_documentBytes hcomplete
  have hvalue : Value.readWithin maxNesting t.chars =
      .ok (Record.document (es.map Entity.toRecord)) :=
    Value.readWithin_print (isReadable_document hexact) ht hscalar
  have hdocument : readDocument w' p = .ok (Record.document (es.map Entity.toRecord)) := by
    rw [readDocument, hbytes, hencode]
    simp only [Utf8.decode_encode, hvalue]
  have hitems : ((es.map Entity.toRecord).map Record.toValue).mapM Record.ofValue =
      .ok (es.map Entity.toRecord) := by
    rw [List.map_map, List.mapM_map]
    exact mapM_eq_ok_map fun e _ => e.ofValue_toValue_toRecord
  rw [read, hdocument]
  change ((List.map Record.toValue _).mapM Record.ofValue).mapError _ = _
  rw [hitems]
  rfl

/-- An entity with an embedding, whose texts need escapes. -/
def escapedEntity (embedding : Option (List Double)) : Entity Text where
  name := "na\\me"
  signature := "f(\"x\", y)\t-> z"
  kind := Kind.function
  docstring := some "\x00\x1F\x7F\u2028"
  line := 10
  lineFrom := 9
  lineTo := -12
  context := ⟨"src/é.py", "é.py", "a\r\nb\x0C\x08/", none, some "𝕏"⟩
  embedding := embedding

/-- The number nearest to one tenth. -/
def tenth : Double := ⟨0x3FB999999999999A⟩

/-- Entities without an embedding, with an empty one, and with one of a number. -/
def escapedEntities : List (Entity Text) :=
  [escapedEntity none, escapedEntity (some []), escapedEntity (some [tenth])]

/-- A tree of an empty folder. -/
def emptyWorkspace : Workspace := ⟨.folder true [], []⟩

theorem exists_write_escapedEntities :
    ∃ w', write (escapedEntities.map Entity.toRecord) ⟨[], ["index.json"]⟩ {} emptyWorkspace =
      (.ok (), w') := by
  have hspelled : Workspace.misspelled? (Path.text ⟨[], ["index.json"]⟩) = none := by decide
  have hlocated : Workspace.locateFrom emptyWorkspace.root .made Workspace.maxLinks []
      ["index.json"] = .ok ⟨["index.json"], none⟩ := by
    rw [Workspace.locateFrom]
    rfl
  have hcreated : emptyWorkspace.create {} ⟨[], ["index.json"]⟩ =
      .ok (["index.json"], { emptyWorkspace with
        root := emptyWorkspace.root.put ["index.json"] (.file []) }) := by
    rw [Workspace.create, Workspace.locate, hspelled]
    simp only [List.isEmpty_nil, if_true, emptyWorkspace] at hlocated ⊢
    rw [hlocated]
  have hcomplete : (documentBytes (Record.document (escapedEntities.map Entity.toRecord))).2 =
      none := by
    decide +kernel
  have hprepared : prepareFolder ⟨[], ["index.json"]⟩ {} emptyWorkspace =
      (.ok (), emptyWorkspace) := rfl
  have hkept (content : Bytes) :
      ¬(Access.kept {} ["index.json"] content).length < content.length := Nat.lt_irrefl _
  simp only [write, hprepared, hcreated, hcomplete, if_neg (hkept _)]
  exact ⟨_, rfl⟩

theorem isExact_tenth : Value.IsExact tenth := by
  have htext : Double.indexLayout.text tenth = "0.1" := by decide +kernel
  have hnumber : Double.ofDecimal false 1 (-1) = tenth := by decide +kernel
  rw [Value.IsExact, htext, ← hnumber]
  rfl

theorem isExact_escapedEntities : ∀ e ∈ escapedEntities, e.IsExact := by
  simp [escapedEntities, escapedEntity, Entity.IsExact, isExact_tenth]

/-- Escapes, characters beyond ASCII, an absent embedding and an empty one are all read back. -/
theorem read_of_write_escapedEntities :
    emptyWorkspace.HasHome ∧ (∀ e ∈ escapedEntities, e.IsExact) ∧
      ∃ w', write (escapedEntities.map Entity.toRecord) ⟨[], ["index.json"]⟩ {} emptyWorkspace =
          (.ok (), w') ∧
        read w' ⟨[], ["index.json"]⟩ = .ok (escapedEntities.map Entity.toRecord) := by
  have hhome : emptyWorkspace.HasHome := ⟨true, [], rfl⟩
  obtain ⟨w', hwritten⟩ := exists_write_escapedEntities
  exact ⟨hhome, isExact_escapedEntities, w', hwritten,
    read_of_write hhome isExact_escapedEntities hwritten⟩

end IndexFile

end CodeCatalog
