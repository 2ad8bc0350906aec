import CodeCatalog.Proofs.Value.Document
import CodeCatalog.Workspace.IndexFile
set_option autoImplicit false

/-!
# What is written of a document

The pieces of a document are written one by one, up to the first one that no file can hold or up to
the first value that has no text.  So all of it is written exactly if each of its values can be
written, and otherwise what is written ends where that value was to begin: behind the colon of a
member, if no text and no integer stands outside an object.
-/

namespace CodeCatalog

/-! ## Texts that a file can hold -/

@[simp] theorem Text.isScalar_ofChars (cs : List Char) : isScalar (ofChars cs) = true := by
  simp [isScalar, ofChars, Glyph.isScalar]

@[simp] theorem Text.isScalar_ofString (s : String) : isScalar (ofString s) = true :=
  isScalar_ofChars s.toList

/-- The text of a number is ASCII. -/
theorem Double.isScalar_text (l : Layout) (x : Double) : (l.text x).isScalar = true := by
  unfold Layout.text
  split_ifs <;> simp

namespace Value

open Text

theorem isScalar_lineBreak (level : Nat) : (lineBreak level).isScalar = true := by
  simp [isScalar, lineBreak, Glyph.isScalar]

/-- A file can hold what opens an item or a member. -/
theorem isScalar_append_lineBreak (mark : String) (level : Nat) :
    isScalar (ofString mark ++ lineBreak level) = true := by
  rw [isScalar_append, isScalar_ofString, isScalar_lineBreak]
  rfl

/-- A code point that a file can hold is written in such code points. -/
theorem isScalar_jsonGlyph (c : Char) : (jsonGlyph (.scalar c)).isScalar = true := by
  unfold jsonGlyph
  split
  case h_8 =>
    split
    · rw [isScalar_append]
      simp [hexDigits, isScalar_ofString]
    · rfl
  all_goals rfl

/-- A file can hold the text of a string exactly if it can hold the string. -/
theorem isScalar_jsonString {t : Text} : (jsonString t).isScalar = t.isScalar := by
  refine Bool.eq_iff_iff.2 ⟨isScalar_of_isScalar_jsonString, fun h => ?_⟩
  have hglyphs : isScalar (t.flatMap jsonGlyph) = true := by
    rw [isScalar, List.all_flatMap, List.all_eq_true]
    intro g hg
    cases g with
    | scalar c => exact isScalar_jsonGlyph c
    | surrogate offset => exact absurd (List.all_eq_true.1 h _ hg) Bool.false_ne_true
  simp [jsonString, hglyphs]

/-! ## Up to where a document is written -/

namespace Printed

variable {a b : Printed} {t : Text} {r : Except DataFault Text}

/-- All of a document is written: it was printed to its end, and a file can hold its pieces. -/
def IsWritable (p : Printed) : Prop := p.fault = none ∧ ∀ t ∈ p.pieces, t.isScalar = true

/-- The text of the pieces before the first one that no file can hold. -/
def written (p : Printed) : Text := (p.pieces.takeWhile isScalar).flatten

/-- A file can hold what is written. -/
theorem isScalar_written (p : Printed) : p.written.isScalar = true := by
  rw [written, isScalar, List.all_flatten, List.all_eq_true]
  exact fun t ht => List.mem_takeWhile_imp (p := isScalar) ht

/-- All of the text is written if all of the document is. -/
theorem IsWritable.text_eq {p : Printed} (h : p.IsWritable) : p.text = .ok p.written := by
  rw [text, h.1, written, List.takeWhile_eq_self_iff.2 h.2]

theorem isWritable_empty : empty.IsWritable := ⟨rfl, List.forall_mem_nil _⟩

theorem isWritable_piece : (piece t).IsWritable ↔ t.isScalar = true := by
  simp [IsWritable, piece]

theorem isWritable_attempt : (attempt r).IsWritable ↔ ∃ t, r = .ok t ∧ t.isScalar = true := by
  cases r with
  | ok t => simp [attempt, isWritable_piece]
  | error f => simp [attempt, IsWritable]

/-- A whole is written if its parts are. -/
theorem isWritable_append : (a ++ b).IsWritable ↔ a.IsWritable ∧ b.IsWritable := by
  obtain ⟨pieces, fault⟩ := a
  change (append _ _).IsWritable ↔ _
  cases fault with
  | some f => simp [append, IsWritable]
  | none =>
    simp only [append, IsWritable, List.forall_mem_append, true_and]
    exact and_left_comm

/-- Behind a part that is written, the next one begins. -/
theorem IsWritable.written_append (h : a.IsWritable) :
    (a ++ b).written = a.written ++ b.written := by
  obtain ⟨pieces, fault⟩ := a
  obtain ⟨rfl, hpieces⟩ := h
  change (pieces ++ b.pieces |>.takeWhile isScalar).flatten = _
  rw [List.takeWhile_append_of_pos hpieces, List.flatten_append]
  simp only [written, List.takeWhile_eq_self_iff.2 hpieces]

/-- Behind a part that is not written to its end, nothing is written. -/
theorem written_append_of_not (h : ¬a.IsWritable) : (a ++ b).written = a.written := by
  obtain ⟨pieces, fault⟩ := a
  cases fault with
  | some f => rfl
  | none =>
    -- No file can hold one of the pieces, so the writing does not get behind them.
    have hpieces : ¬∀ t ∈ pieces, t.isScalar = true := fun hall => h ⟨rfl, hall⟩
    change ((pieces ++ b.pieces).takeWhile isScalar).flatten = (pieces.takeWhile isScalar).flatten
    rw [List.takeWhile_append, if_neg]
    intro hlength
    exact hpieces (List.takeWhile_eq_self_iff.1
      ((List.takeWhile_prefix isScalar).eq_of_length hlength))

end Printed

/-! ## What values can be written -/

section

variable {level : Nat} {opening t : Text} {v : Value} {items : List Value} {key : Text}
  {members : List (Text × Value)}

open Printed

/-- What is written in one piece is written if it has a text that a file can hold. -/
theorem isWritable_print_of_jsonScalar? {r : Except DataFault Text} (h : v.jsonScalar? = some r) :
    (print level v).IsWritable ↔ ∃ t, r = .ok t ∧ t.isScalar = true := by
  cases v with
  | list items => cases h
  | object members => cases h
  | foreign => cases h
  | int i =>
    cases h
    exact isWritable_attempt
  | _ =>
    cases h
    simp [print, isWritable_piece]

theorem isWritable_print_null : (print level .null).IsWritable := isWritable_piece.2 rfl

theorem isWritable_print_text : (print level (.text t)).IsWritable ↔ t.isScalar = true := by
  rw [print, isWritable_piece, isScalar_jsonString]

/-- An integer is written if it does not have too many digits. -/
theorem isWritable_print_int {i : Int} :
    (print level (.int i)).IsWritable ↔ isShort i = true := by
  rw [print, isWritable_attempt, jsonInt]
  split
  · rename_i hshort
    simpa [ofInt] using hshort
  · rename_i hlong
    simpa using hlong

theorem isWritable_print_float {x : Double} : (print level (.float x)).IsWritable :=
  isWritable_piece.2 (Double.isScalar_text _ x)

theorem isWritable_printItems_cons (hopening : opening.isScalar = true) :
    (printItems level opening (v :: items)).IsWritable ↔
      (print level v).IsWritable ∧
        (printItems level ("," ++ lineBreak level) items).IsWritable := by
  rw [printItems, isWritable_append]
  refine and_congr_left' ?_
  cases hv : v.jsonScalar? with
  | none => simp [isWritable_append, isWritable_piece, hopening]
  | some r =>
    rw [isWritable_print_of_jsonScalar? hv, isWritable_attempt]
    cases r <;> simp [Except.map, hopening]

theorem isWritable_printItems (hopening : opening.isScalar = true) :
    (printItems level opening items).IsWritable ↔ ∀ v ∈ items, (print level v).IsWritable := by
  induction items generalizing opening with
  | nil => simp [printItems, isWritable_empty]
  | cons v items ih =>
    rw [isWritable_printItems_cons hopening, ih (isScalar_append_lineBreak _ _),
      List.forall_mem_cons]

theorem isWritable_closing (bracket : String) :
    Printed.IsWritable ⟨[lineBreak level, ofString bracket], none⟩ := by
  simp [IsWritable, isScalar_lineBreak]

/-- A list is written if its items are. -/
theorem isWritable_print_list :
    (print level (.list items)).IsWritable ↔ ∀ v ∈ items, (print (level + 1) v).IsWritable := by
  cases items with
  | nil => simp [print, isWritable_piece]
  | cons v items =>
    rw [← isWritable_printItems (isScalar_append_lineBreak "[" (level + 1)), print_list_cons,
      isWritable_append]
    exact and_iff_left (isWritable_closing "]")

theorem isWritable_memberOpening (hopening : opening.isScalar = true) :
    Printed.IsWritable ⟨[opening, jsonString key, ": "], none⟩ ↔ key.isScalar = true := by
  simp [IsWritable, hopening, isScalar_jsonString]

theorem isWritable_printMembers (hopening : opening.isScalar = true) :
    (printMembers level opening members).IsWritable ↔
      ∀ m ∈ members, m.1.isScalar = true ∧ (print level m.2).IsWritable := by
  induction members generalizing opening with
  | nil => simp [printMembers, isWritable_empty]
  | cons m members ih =>
    obtain ⟨key, v⟩ := m
    rw [printMembers, isWritable_append, isWritable_append, isWritable_memberOpening hopening,
      ih (isScalar_append_lineBreak _ _), List.forall_mem_cons]

/-- An object is written if its keys and its values are. -/
theorem isWritable_print_object :
    (print level (.object members)).IsWritable ↔
      ∀ m ∈ members, m.1.isScalar = true ∧ (print (level + 1) m.2).IsWritable := by
  cases members with
  | nil => simp [print, isWritable_piece]
  | cons m members =>
    rw [← isWritable_printMembers (isScalar_lineBreak (level + 1)), print_object_cons,
      isWritable_append, isWritable_append]
    exact (and_iff_left (isWritable_closing "\x7d")).trans (and_iff_right (isWritable_piece.2 rfl))

end

/-! ## Where the writing stops -/

namespace Printed

variable {a b : Printed}

/-- Nothing is written unless all of it is. -/
def StopsAtOnce (p : Printed) : Prop := ¬p.IsWritable → p.written = []

/-- Unless all of it is written, what is written ends with the colon behind a key. -/
def StopsBehindKey (p : Printed) : Prop := ¬p.IsWritable → ∃ t : Text, p.written = t ++ ": "

theorem StopsBehindKey.append (ha : a.StopsBehindKey) (hb : b.StopsBehindKey) :
    (a ++ b).StopsBehindKey := by
  intro h
  by_cases hwritable : a.IsWritable
  · obtain ⟨t, ht⟩ := hb fun hrest => h (isWritable_append.2 ⟨hwritable, hrest⟩)
    exact ⟨a.written ++ t, by rw [hwritable.written_append, ht, List.append_assoc]⟩
  · rw [written_append_of_not hwritable]
    exact ha hwritable

theorem IsWritable.stopsBehindKey (h : a.IsWritable) : a.StopsBehindKey := fun hnot => absurd h hnot

end Printed

section

variable {level : Nat} {opening key : Text} {v : Value} {items : List Value}
  {members : List (Text × Value)}

open Printed

theorem written_piece (t : Text) : (piece t).written = if t.isScalar then t else [] := by
  unfold written piece
  cases h : t.isScalar <;> simp [h]

/-- Of a text or an integer nothing is written unless all of it is. -/
theorem stopsAtOnce_print (h : v.jsonScalar?.isSome) : (print level v).StopsAtOnce := by
  have hpiece : ∀ t : Text, (piece t).StopsAtOnce := fun t hnot => by
    rw [written_piece, if_neg fun ht => hnot (isWritable_piece.2 ht)]
  cases v with
  | list items => cases h
  | object members => cases h
  | foreign => cases h
  | int i =>
    rw [print]
    cases jsonInt i with
    | ok t => exact hpiece t
    | error f => exact fun _ => rfl
  | _ =>
    rw [print]
    exact hpiece _

/-- A member stops behind its key, or where its value does. -/
theorem stopsBehindKey_member (hopening : opening.isScalar = true) (hkey : key.isScalar = true)
    (h : (print level v).StopsAtOnce ∨ (print level v).StopsBehindKey) :
    StopsBehindKey (⟨[opening, jsonString key, ": "], none⟩ ++ print level v) := by
  intro hnot
  have hheader := (isWritable_memberOpening hopening).2 hkey
  have hvalue : ¬(print level v).IsWritable := fun hv => hnot (isWritable_append.2 ⟨hheader, hv⟩)
  have hwritten : Printed.written ⟨[opening, jsonString key, ": "], none⟩ =
      opening ++ jsonString key ++ ": " := by
    rw [written, List.takeWhile_eq_self_iff.2 hheader.2]
    simp
  rw [hheader.written_append, hwritten]
  rcases h with h | h
  · exact ⟨opening ++ jsonString key, by rw [h hvalue, List.append_nil]⟩
  · obtain ⟨t, ht⟩ := h hvalue
    exact ⟨opening ++ jsonString key ++ ": " ++ t, by rw [ht, ← List.append_assoc]⟩

theorem stopsBehindKey_printMembers (hopening : opening.isScalar = true)
    (h : ∀ m ∈ members, m.1.isScalar = true ∧
      ((print level m.2).StopsAtOnce ∨ (print level m.2).StopsBehindKey)) :
    (printMembers level opening members).StopsBehindKey := by
  induction members generalizing opening with
  | nil => exact isWritable_empty.stopsBehindKey
  | cons m members ih =>
    obtain ⟨⟨hkey, hvalue⟩, hrest⟩ := List.forall_mem_cons.1 h
    exact (stopsBehindKey_member hopening hkey hvalue).append
      (ih (isScalar_append_lineBreak _ _) hrest)

/-- An object stops behind one of its keys, or where the value of that key does. -/
theorem stopsBehindKey_print_object
    (h : ∀ m ∈ members, m.1.isScalar = true ∧
      ((print (level + 1) m.2).StopsAtOnce ∨ (print (level + 1) m.2).StopsBehindKey)) :
    (print level (.object members)).StopsBehindKey := by
  cases members with
  | nil => exact (isWritable_print_object.2 (by simp)).stopsBehindKey
  | cons m members =>
    have hbrace : (piece "\x7b").IsWritable := isWritable_piece.2 rfl
    have hmembers := stopsBehindKey_printMembers (isScalar_lineBreak (level + 1)) h
    rw [print_object_cons]
    exact (hbrace.stopsBehindKey.append hmembers).append
      (isWritable_closing "\x7d").stopsBehindKey

theorem stopsBehindKey_printItems (hopening : opening.isScalar = true)
    (h : ∀ v ∈ items, v.jsonScalar? = none ∧ (print level v).StopsBehindKey) :
    (printItems level opening items).StopsBehindKey := by
  induction items generalizing opening with
  | nil => exact isWritable_empty.stopsBehindKey
  | cons v items ih =>
    obtain ⟨⟨hv, hstops⟩, hrest⟩ := List.forall_mem_cons.1 h
    rw [printItems, hv]
    exact ((isWritable_piece.2 hopening).stopsBehindKey.append hstops).append
      (ih (isScalar_append_lineBreak _ _) hrest)

/-- A list that holds no text and no integer of its own stops where one of its items does. -/
theorem stopsBehindKey_print_list
    (h : ∀ v ∈ items, v.jsonScalar? = none ∧ (print (level + 1) v).StopsBehindKey) :
    (print level (.list items)).StopsBehindKey := by
  cases items with
  | nil => exact (isWritable_print_list.2 (by simp)).stopsBehindKey
  | cons v items =>
    rw [print_list_cons]
    exact (stopsBehindKey_printItems (isScalar_append_lineBreak "[" (level + 1)) h).append
      (isWritable_closing "]").stopsBehindKey

end

end Value

/-! ## The bytes of a document -/

open Value

/-- Pieces are encoded up to the first one that cannot be, and there is none if they all can. -/
theorem encodePieces_eq (pieces : List Text) :
    (encodePieces pieces).1 = Utf8.encode (pieces.takeWhile Text.isScalar).flatten ∧
      ((encodePieces pieces).2 = none ↔ ∀ t ∈ pieces, t.isScalar = true) := by
  induction pieces with
  | nil => exact ⟨rfl, by simp [encodePieces]⟩
  | cons t rest ih =>
    unfold encodePieces
    cases ht : t.isScalar with
    | true =>
      rw [Utf8.encode?_eq_ok.2 ⟨ht, rfl⟩]
      refine ⟨?_, by simpa [ht] using ih.2⟩
      rw [List.takeWhile_cons_of_pos ht, List.flatten_cons, Utf8.encode_append, ← ih.1]
    | false =>
      split
      · simp [ht, Utf8.encode]
      · rename_i bytes hbytes
        rw [(Utf8.encode?_eq_ok.1 hbytes).1] at ht
        cases ht

/-- What a file holds of a document is the encoding of what is written of it. -/
theorem bytes_documentBytes (v : Value) : (documentBytes v).1 = Utf8.encode (v.print 0).written :=
  (encodePieces_eq _).1

/-- Nothing stops the writing of a document that can be written. -/
theorem documentBytes_eq_none {v : Value} :
    (documentBytes v).2 = none ↔ (v.print 0).IsWritable := by
  change Option.or _ _ = none ↔ _
  rw [Option.or_eq_none_iff, (encodePieces_eq _).2]
  exact and_comm

end CodeCatalog
