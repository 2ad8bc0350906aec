import CodeCatalog.Proofs.Entity.Reading
import CodeCatalog.Workspace.IndexFile
set_option autoImplicit false

/-!
# How the reading of an index file fails

A file that cannot be opened or holds no document, a document that is no list and an item that is
malformed are told as faults of the index file.  Other faults come through as they are: of a
document that is nested too deep, and of the first item that cannot be read if the reading breaks
there.
-/

namespace CodeCatalog

/-- The faults of an index file. -/
def Fault.isIndexFile : Fault → Bool
  | writeFailed _ _ => true
  | readFailed _ _ => true
  | notList _ => true
  | malformedEntity _ _ => true
  | _ => false

namespace IndexFile

variable {w : Workspace} {p : Path} {fault : Fault}

/-- A file holds a text whose lists and objects are nested deeper than it is read; the type is that
of the first that is too deep. -/
def IsTooDeep (w : Workspace) (p : Path) (type : String) : Prop :=
  ∃ bytes cs, w.read p = .ok bytes ∧ Utf8.decode bytes = .ok cs ∧
    Value.readWithin maxNesting cs = .error (.tooDeep type)

/-- No fault but that of nesting escapes from the reading of a document. -/
theorem readDocument_escapes_iff :
    readDocument w p = .error fault ∧ fault.isIndexFile = false ↔
      ∃ type, fault = .nestedTooDeep type ∧ IsTooDeep w p type := by
  constructor
  · rintro ⟨h, hfault⟩
    unfold readDocument at h
    split at h
    · cases h
      cases hfault
    · rename_i bytes hbytes
      split at h
      · cases h
        cases hfault
      · rename_i cs hcs
        split at h
        · cases h
          cases hfault
        · rename_i type htype
          cases h
          exact ⟨type, rfl, bytes, cs, hbytes, hcs, htype⟩
        · cases h
  · rintro ⟨type, rfl, bytes, cs, hbytes, hcs, htype⟩
    simp [readDocument, hbytes, hcs, htype, Fault.isIndexFile]

/-- A fault of an item escapes if it breaks the reading of the item. -/
theorem readItems_escapes_iff {items : List Value} :
    ((items.mapM Record.ofValue).mapError fun f =>
        if f.isMalformed then Fault.malformedEntity p.text f else .data f) = .error fault ∧
        fault.isIndexFile = false ↔
      ∃ cause, fault = .data cause ∧ BreaksWith (items.mapM Record.ofValue) cause := by
  cases items.mapM Record.ofValue with
  | ok rs => exact iff_of_false nofun (by simp [BreaksWith])
  | error f =>
    simp only [breaksWith_error]
    constructor
    · rintro ⟨h, hfault⟩
      cases h
      by_cases hf : f.isMalformed
      · simp [hf, Fault.isIndexFile] at hfault
      · exact ⟨f, if_neg hf, rfl, by simpa using hf⟩
    · rintro ⟨_, rfl, rfl, hf⟩
      exact ⟨congrArg Except.error (if_neg (by simp [hf])), rfl⟩

/-- A fault that is none of the index file escapes exactly if the document is nested too deep, or
if it is a list and the reading breaks at the first item that cannot be read. -/
theorem read_escapes_iff (w : Workspace) (p : Path) (fault : Fault) :
    read w p = .error fault ∧ fault.isIndexFile = false ↔
      (∃ type, fault = .nestedTooDeep type ∧ IsTooDeep w p type) ∨
      ∃ before v after cause, fault = .data cause ∧
        readDocument w p = .ok (.list (before ++ v :: after)) ∧
        (∀ u ∈ before, ∃ r, Record.ofValue u = .ok r) ∧ Record.Breaks v cause := by
  rw [← readDocument_escapes_iff]
  cases hdocument : readDocument w p with
  | error f => simp [read, hdocument, bind, Except.bind]
  | ok v =>
    simp only [reduceCtorEq, false_and, false_or, Except.ok.injEq]
    cases v with
    | list items =>
      have hread : read w p = (items.mapM Record.ofValue).mapError fun f =>
          if f.isMalformed then Fault.malformedEntity p.text f else .data f := by
        simp [read, hdocument, bind, Except.bind]
      rw [hread, readItems_escapes_iff]
      simp only [breaksWith_mapM, Record.breaksWith_ofValue, Value.list.injEq]
      constructor
      · rintro ⟨cause, hcause, before, v, after, hitems, hbefore, hv⟩
        exact ⟨before, v, after, cause, hcause, hitems, hbefore, hv⟩
      · rintro ⟨before, v, after, cause, hcause, hitems, hbefore, hv⟩
        exact ⟨cause, hcause, before, v, after, hitems, hbefore, hv⟩
    | _ =>
      refine iff_of_false ?_ (by simp)
      rintro ⟨h, hfault⟩
      have hread : read w p = .error (.notList p.text) := by
        simp [read, hdocument, bind, Except.bind, throw, throwThe, MonadExceptOf.throw]
      rw [hread] at h
      cases h
      cases hfault

/-! ## A number for an entity -/

/-- An index file that holds a number where an entity belongs. -/
def numberedIndex : Workspace :=
  ⟨.folder true [("index.json", .file (Utf8.encode "[1]"))], []⟩

/-- A number is asked for a member, and no fault of the index file is told. -/
theorem read_numberedIndex :
    read numberedIndex ⟨[], ["index.json"]⟩ = .error (.data (.lacks "int" "get")) ∧
      Fault.isIndexFile (.data (.lacks "int" "get")) = false := by
  refine ⟨?_, rfl⟩
  have hspelled : Workspace.misspelled? (Path.text ⟨[], ["index.json"]⟩) = none := by decide
  have hlocated : Workspace.locateFrom numberedIndex.root .followed Workspace.maxLinks []
      ["index.json"] = .ok ⟨["index.json"], some (.file (Utf8.encode "[1]"))⟩ := by
    rw [Workspace.locateFrom]
    rfl
  have hbytes : numberedIndex.read ⟨[], ["index.json"]⟩ = .ok (Utf8.encode "[1]") := by
    rw [Workspace.read, Workspace.locate, hspelled]
    simp only [List.isEmpty_nil, if_true, numberedIndex] at hlocated ⊢
    rw [hlocated]
  have hchars : Utf8.decode (Utf8.encode "[1]") = .ok ['[', '1', ']'] := by rfl
  have hvalue : Value.readWithin maxNesting ['[', '1', ']'] = .ok (.list [.int 1]) := by rfl
  have hdocument : readDocument numberedIndex ⟨[], ["index.json"]⟩ = .ok (.list [.int 1]) := by
    rw [readDocument, hbytes]
    simp only [hchars, hvalue]
  simp [read, hdocument]
  rfl

end IndexFile

end CodeCatalog
