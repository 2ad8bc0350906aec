import CodeCatalog.Proofs.Entity.Payload
import CodeCatalog.Proofs.Value.Closing
import CodeCatalog.Proofs.Value.Written
import CodeCatalog.Proofs.Workspace.Opening
set_option autoImplicit false

/-!
# Writing over an index file

The file is opened, and so emptied, before its document is produced.  If the system does not let
it be opened, it is left as it was.  Behind that, what fails is a string that holds a lone
surrogate, or a line number with too many digits: then the file holds the pieces of the document
before that value, which is no index, and what was there is lost.  If there is no room for what is
to be written, the file holds as much of it as there is room for.
-/

namespace CodeCatalog

open Value

/-! ## Entities of a document -/

namespace Record

/-- The entities of a document that is a list of them. -/
def entitiesOf? (v : Value) : Option (List (Entity Text)) :=
  match v with
  | .list items => (items.mapM ofValue).toOption.bind fun rs => rs.mapM toEntity?
  | _ => none

/-- A record of texts is the record of its entity. -/
theorem eq_toRecord {r : Record} {e : Entity Text} (h : r.toEntity? = some e) :
    r = e.toRecord := by
  obtain ⟨name, signature, kind, docstring, line, lineFrom, lineTo,
    ⟨filePath, fileName, snippet, moduleName, enclosingType⟩, embedding⟩ := r
  unfold toEntity? at h
  simp only [Option.bind_eq_bind, Option.bind_eq_some_iff, Option.pure_def, Option.some.injEq] at h
  obtain ⟨_, hname, _, hsignature, _, hkind, doc, hdoc, _, hfilePath, _, hfileName, _, hsnippet,
    scope, hscope, type, htype, rfl⟩ := h
  have hdoc : docstring = doc.map .text := by
    rcases docstring with _ | v
    · cases hdoc
      rfl
    · cases v <;> cases hdoc
      rfl
  have hscope : moduleName = scope.map .text := by
    rcases moduleName with _ | v
    · cases hscope
      rfl
    · cases v <;> cases hscope
      rfl
  have htype : enclosingType = type.map .text := by
    rcases enclosingType with _ | v
    · cases htype
      rfl
    · cases v <;> cases htype
      rfl
  subst hdoc hscope htype
  cases name <;> cases hname
  cases signature <;> cases hsignature
  cases kind <;> cases hkind
  cases filePath <;> cases hfilePath
  cases fileName <;> cases hfileName
  cases snippet <;> cases hsnippet
  rfl

theorem eq_map_toRecord {rs : List Record} {es : List (Entity Text)}
    (h : rs.mapM toEntity? = some es) : rs = es.map Entity.toRecord := by
  induction rs generalizing es with
  | nil =>
    cases h
    rfl
  | cons r rs ih =>
    rw [List.mapM_cons] at h
    simp only [Option.bind_eq_bind, Option.bind_eq_some_iff, Option.pure_def,
      Option.some.injEq] at h
    obtain ⟨e, he, rest, hrest, rfl⟩ := h
    rw [List.map_cons, eq_toRecord he, ih hrest]

end Record

/-! ## Entities that can be written -/

/-- The strings of a context. -/
def Context.strings (c : Context Text) : List Text :=
  c.moduleName.toList ++ [c.filePath, c.fileName] ++ c.enclosingType.toList ++ [c.snippet]

/-- The strings of an entity. -/
def Entity.strings (e : Entity Text) : List Text :=
  [e.name, e.signature, e.kind] ++ e.docstring.toList ++ e.context.strings

/-- A file can hold the strings of an entity, and none of its line numbers has too many digits. -/
structure Entity.IsWritable (e : Entity Text) : Prop where
  strings : ∀ t ∈ e.strings, t.isScalar = true
  lines : e.hasShortLines = true

section

variable {level : Nat}

theorem isWritable_print_ofOption_text {t : Option Text} :
    (print level (ofOption (t.map .text))).IsWritable ↔ ∀ u ∈ t.toList, u.isScalar = true := by
  cases t with
  | none => simp [ofOption, isWritable_print_null]
  | some t => simp [ofOption, isWritable_print_text]

theorem Context.isWritable_print (c : Context Text) :
    (print level (c.map .text).toValue).IsWritable ↔ ∀ t ∈ c.strings, t.isScalar = true := by
  rw [toValue, isWritable_print_object]
  simp only [List.forall_mem_cons, List.forall_mem_append, map, strings, Text.isScalar_ofString,
    isWritable_print_ofOption_text, isWritable_print_text]
  simp [and_assoc]

/-- The members of an entity are written if its strings and its lines are. -/
theorem Entity.isWritable_payloadMembers (e : Entity Text) (level : Nat) :
    (∀ m ∈ e.toRecord.payloadMembers, m.1.isScalar = true ∧ (print level m.2).IsWritable) ↔
      e.IsWritable := by
  simp only [Record.payloadMembers, List.forall_mem_cons, toRecord, map, Text.isScalar_ofString,
    isWritable_print_ofOption_text, isWritable_print_text, isWritable_print_int,
    Context.isWritable_print, true_and, List.not_mem_nil, false_implies, implies_true, and_true]
  constructor
  · rintro ⟨hname, hsignature, hkind, hdocstring, hline, hfrom, hto, hcontext⟩
    refine ⟨?_, ?_⟩
    · simp only [strings, List.forall_mem_append, List.forall_mem_cons]
      exact ⟨⟨⟨hname, hsignature, hkind, List.forall_mem_nil _⟩, hdocstring⟩, hcontext⟩
    · rw [hasShortLines_iff]
      exact ⟨hline, hfrom, hto⟩
  · rintro ⟨hstrings, hlines⟩
    simp only [strings, List.forall_mem_append, List.forall_mem_cons] at hstrings
    obtain ⟨⟨⟨hname, hsignature, hkind, -⟩, hdocstring⟩, hcontext⟩ := hstrings
    obtain ⟨hline, hfrom, hto⟩ := e.hasShortLines_iff.1 hlines
    exact ⟨hname, hsignature, hkind, hdocstring, hline, hfrom, hto, hcontext⟩

/-- An entity is written if its strings and its lines are: so are the numbers of an embedding. -/
theorem Entity.isWritable_print (e : Entity Text) :
    (print level e.toRecord.toValue).IsWritable ↔ e.IsWritable := by
  rw [← e.isWritable_payloadMembers (level + 1), Record.toValue]
  split
  · exact isWritable_print_object
  · -- The numbers of an embedding are always written.
    rename_i xs _
    rw [isWritable_print_object, List.forall_mem_append]
    refine and_iff_left ?_
    simp [isWritable_print_list, isWritable_print_float]

theorem stopsAtOnce_print_ofOption_text {t : Option Text} :
    (print level (ofOption (t.map .text))).StopsAtOnce := by
  cases t with
  | none => exact stopsAtOnce_print rfl
  | some t => exact stopsAtOnce_print rfl

theorem Context.stopsBehindKey_print (c : Context Text) :
    (print level (c.map .text).toValue).StopsBehindKey := by
  refine stopsBehindKey_print_object ?_
  simp only [List.forall_mem_cons, map, Text.isScalar_ofString, true_and]
  exact ⟨.inl stopsAtOnce_print_ofOption_text, .inl (stopsAtOnce_print rfl),
    .inl (stopsAtOnce_print rfl), .inl stopsAtOnce_print_ofOption_text,
    .inl (stopsAtOnce_print rfl), List.forall_mem_nil _⟩

/-- The writing of an entity stops behind a key of its own or of its context. -/
theorem Entity.stopsBehindKey_print (e : Entity Text) :
    (print level e.toRecord.toValue).StopsBehindKey := by
  have hpayload : ∀ m ∈ e.toRecord.payloadMembers, m.1.isScalar = true ∧
      ((print (level + 1) m.2).StopsAtOnce ∨ (print (level + 1) m.2).StopsBehindKey) := by
    simp only [Record.payloadMembers, List.forall_mem_cons, toRecord, map, Text.isScalar_ofString,
      true_and]
    exact ⟨.inl (stopsAtOnce_print rfl), .inl (stopsAtOnce_print rfl),
      .inl (stopsAtOnce_print rfl), .inl stopsAtOnce_print_ofOption_text,
      .inl (stopsAtOnce_print rfl), .inl (stopsAtOnce_print rfl), .inl (stopsAtOnce_print rfl),
      .inr (Context.stopsBehindKey_print _), List.forall_mem_nil _⟩
  rw [Record.toValue]
  split
  · exact stopsBehindKey_print_object hpayload
  · rename_i xs _
    refine stopsBehindKey_print_object (List.forall_mem_append.2 ⟨hpayload, ?_⟩)
    have hnumbers : (print (level + 1) (.list (xs.map .float))).IsWritable := by
      simp [isWritable_print_list, isWritable_print_float]
    simpa using Or.inr hnumbers.stopsBehindKey

theorem isWritable_print_document {es : List (Entity Text)} :
    (print 0 (Record.document (es.map Entity.toRecord))).IsWritable ↔ ∀ e ∈ es, e.IsWritable := by
  simp only [Record.document, isWritable_print_list, List.forall_mem_map, Entity.isWritable_print]

/-- Of a document of entities that is not written to its end, what is written ends with the colon
behind a key. -/
theorem stopsBehindKey_print_document (es : List (Entity Text)) :
    (print 0 (Record.document (es.map Entity.toRecord))).StopsBehindKey := by
  refine stopsBehindKey_print_list fun v hv => ?_
  rw [List.map_map] at hv
  obtain ⟨e, -, rfl⟩ := List.mem_map.1 hv
  refine ⟨?_, e.stopsBehindKey_print⟩
  rw [Function.comp_apply, Record.toValue]
  split <;> rfl

end

/-- What a file holds of the document of entities once it was written as far as it goes. -/
def writtenText (es : List (Entity Text)) : Text :=
  (print 0 (Record.document (es.map Entity.toRecord))).written

namespace IndexFile

variable {w w' : Workspace} {p : Path} {old : Bytes} {rs : List Record} {es : List (Entity Text)}

/-! ## Files that hold no index -/

/-- No index is read from the file at a path. -/
def IsLost (w : Workspace) (p : Path) : Prop := ∀ rs, read w p ≠ .ok rs

theorem exists_list_of_read (h : read w p = .ok rs) :
    ∃ items, readDocument w p = .ok (.list items) := by
  cases hdocument : readDocument w p with
  | error f => simp [read, hdocument, bind, Except.bind] at h
  | ok v =>
    cases v with
    | list items => exact ⟨items, rfl⟩
    | _ => simp [read, hdocument, bind, Except.bind, throw, throwThe, MonadExceptOf.throw] at h

/-- A file that ends with the colon behind a key holds no index. -/
theorem isLost_of_colon {t : Text} (h : w.read p = .ok (Utf8.encode (t ++ ": "))) : IsLost w p := by
  intro rs hread
  obtain ⟨items, hdocument⟩ := exists_list_of_read hread
  rw [readDocument, h] at hdocument
  simp only [Utf8.decode_encode, Text.chars_append, Text.chars_ofString] at hdocument
  split at hdocument
  · cases hdocument
  · cases hdocument
  · rename_i v hv
    cases hdocument
    exact readWithin_colon_ne_list hv

/-- The entities of a document is what is read from its file. -/
theorem read_of_entitiesOf? {v : Value} (hdocument : readDocument w p = .ok v)
    (h : Record.entitiesOf? v = some es) : read w p = .ok (es.map Entity.toRecord) := by
  unfold Record.entitiesOf? at h
  split at h
  · rename_i items
    obtain ⟨rs, hitems, hentities⟩ := Option.bind_eq_some_iff.1 h
    rw [← Record.eq_map_toRecord hentities]
    cases hread : items.mapM Record.ofValue with
    | error f => simp [hread, Except.toOption] at hitems
    | ok rs' =>
      obtain rfl : rs' = rs := by simpa [hread, Except.toOption] using hitems
      simp [read, hdocument, bind, Except.bind, hread, Except.mapError]
  · cases h

/-- What is read from a path depends on the bytes of the file there. -/
theorem readDocument_congr (h : w'.read p = w.read p) : readDocument w' p = readDocument w p := by
  rw [readDocument, readDocument, h]

theorem IsLost.read_ne (hlost : IsLost w' p) (hold : w.read p = .ok old) (h : read w p = .ok rs) :
    w'.read p ≠ .ok old := by
  intro hsame
  refine hlost rs ?_
  rw [read, readDocument_congr (hsame.trans hold.symm)]
  exact h

/-! ## Over a file that is there -/

variable {access : Access} {way : List Text}

/-- If the system refuses to open the file, nothing changes. -/
theorem write_of_refusal {c : FileCause}
    (hmade : w.locate .made p = .ok ⟨way, some (.file old)⟩)
    (hprepared : prepareFolder p access w = (.ok (), w)) (hrefusal : access.refusal? way = some c) :
    write rs p access w = (.error (.writeFailed p.text (.file ⟨c, p.text⟩)), w) := by
  simp only [write, hprepared, Workspace.create_of_refusal hmade hrefusal]

/-- Over a file that the system lets be opened a document is written as far as it goes, and as far
as there is room. -/
theorem write_over_opened (hw : w.HasHome) (hmade : w.locate .made p = .ok ⟨way, some (.file old)⟩)
    (hprepared : prepareFolder p access w = (.ok (), w)) (hallowed : access.refusal? way = none)
    (rs : List Record) :
    ∃ result w', write rs p access w = (result, w') ∧
      w'.read p = .ok (access.kept way (documentBytes (Record.document rs)).1) ∧
      (¬access.HasRoom way (documentBytes (Record.document rs)).1 ∧
          result = .error (.writeFailed p.text .noRoom) ∨
        access.HasRoom way (documentBytes (Record.document rs)).1 ∧
          ((documentBytes (Record.document rs)).2 = none ∧ result = .ok () ∨
            ∃ f, (documentBytes (Record.document rs)).2 = some f ∧
              result = .error (.writeFailed p.text (.data f)))) := by
  obtain ⟨opened, hopened⟩ := Workspace.exists_create_of_no_refusal hmade hallowed
  have hread : (opened.fill way (access.kept way (documentBytes (Record.document rs)).1)).read p =
      .ok _ := Workspace.read_fill hw hopened
  by_cases hroom : access.HasRoom way (documentBytes (Record.document rs)).1
  · have hkept := mt Access.length_kept_lt_iff.1 (not_not.2 hroom)
    cases hstop : (documentBytes (Record.document rs)).2 with
    | none =>
      refine ⟨_, _, ?_, hread, .inr ⟨hroom, .inl ⟨rfl, rfl⟩⟩⟩
      simp only [write, hprepared, hopened, hstop, if_neg hkept]
    | some f =>
      refine ⟨_, _, ?_, hread, .inr ⟨hroom, .inr ⟨f, rfl, rfl⟩⟩⟩
      simp only [write, hprepared, hopened, hstop, if_neg hkept]
  · refine ⟨_, _, ?_, hread, .inl ⟨hroom, rfl⟩⟩
    simp only [write, hprepared, hopened, if_pos (Access.length_kept_lt_iff.2 hroom)]

/-- How the writing of entities over a file that was opened ends, and what it leaves. -/
inductive Overwrites (access : Access) (way : List Text) (p : Path) (es : List (Entity Text)) :
    Outcome Unit → Workspace → Prop
  /-- The file holds the whole document. -/
  | completed {w' : Workspace} (hall : ∀ e ∈ es, e.IsWritable)
    (hroom : access.HasRoom way (Utf8.encode (writtenText es)))
    (hread : w'.read p = .ok (Utf8.encode (writtenText es))) :
    Overwrites access way p es (.ok ()) w'
  /-- An entity cannot be written: the file holds the document up to one of its values, which is no
  index. -/
  | stopped {w' : Workspace} {f : DataFault} (hsome : ∃ e ∈ es, ¬e.IsWritable)
    (hroom : access.HasRoom way (Utf8.encode (writtenText es)))
    (hread : w'.read p = .ok (Utf8.encode (writtenText es))) (hlost : IsLost w' p) :
    Overwrites access way p es (.error (.writeFailed p.text (.data f))) w'
  /-- The file holds as much as there is room for, and more was to be written. -/
  | noRoom {w' : Workspace} (hroom : ¬access.HasRoom way (Utf8.encode (writtenText es)))
    (hread : w'.read p = .ok (access.kept way (Utf8.encode (writtenText es)))) :
    Overwrites access way p es (.error (.writeFailed p.text .noRoom)) w'

/-- Over a file that the system lets be opened entities are written, if each of them can be and
there is room.  If one cannot be, the file ends with the colon behind a key. -/
theorem write_overwrites (hw : w.HasHome)
    (hmade : w.locate .made p = .ok ⟨way, some (.file old)⟩)
    (hprepared : prepareFolder p access w = (.ok (), w)) (hallowed : access.refusal? way = none)
    (es : List (Entity Text)) :
    ∃ result w', write (es.map Entity.toRecord) p access w = (result, w') ∧
      Overwrites access way p es result w' := by
  obtain ⟨result, w', hwrite, hread, hcases⟩ :=
    write_over_opened hw hmade hprepared hallowed (es.map Entity.toRecord)
  rw [bytes_documentBytes] at hread hcases
  refine ⟨result, w', hwrite, ?_⟩
  rcases hcases with ⟨hroom, rfl⟩ | ⟨hroom, ⟨hstop, rfl⟩ | ⟨f, hstop, rfl⟩⟩
  · exact .noRoom hroom hread
  · rw [Access.kept_of_hasRoom hroom] at hread
    exact .completed (isWritable_print_document.1 (documentBytes_eq_none.1 hstop)) hroom hread
  · rw [Access.kept_of_hasRoom hroom] at hread
    have hnot : ¬(print 0 (Record.document (es.map Entity.toRecord))).IsWritable := by
      rw [← documentBytes_eq_none, hstop]
      exact Option.some_ne_none f
    -- What is written ends with a colon, while a list ends with its bracket.
    obtain ⟨t, ht⟩ := stopsBehindKey_print_document es hnot
    have hlost : IsLost w' p := isLost_of_colon (ht ▸ hread)
    rw [isWritable_print_document] at hnot
    push Not at hnot
    exact .stopped hnot hroom hread hlost

end IndexFile

end CodeCatalog
