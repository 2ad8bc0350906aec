import CodeCatalog.Entity.Record
import CodeCatalog.Proofs.Lists
set_option autoImplicit false

/-!
# Payloads

The payload of a record is read back as that record: its members are the fields that are asked
for, and a line is an integer already.  Two things are not kept.  The embedding is stored beside
the payload, and `null` in the place of an optional value is read as no value.  A record of texts
has no `null`, and a document can hold all of it but line numbers with too many digits.
-/

namespace CodeCatalog

/-! ## Reading a payload -/

/-- An optional value as it is read back: `null` is none. -/
def Value.readBack (v : Option Value) : Option Value := (Value.ofOption v).toOption

@[simp] theorem Value.readBack_map_text (t : Option Text) :
    Value.readBack (t.map .text) = t.map .text := by
  cases t <;> rfl

/-- A context as it is read back. -/
def Context.readBack (c : Context Value) : Context Value :=
  { c with
    moduleName := Value.readBack c.moduleName
    enclosingType := Value.readBack c.enclosingType }

/-- A record as it is read back from its payload. -/
def Record.readBack (r : Record) : Record :=
  { r with
    docstring := Value.readBack r.docstring
    context := r.context.readBack
    embedding := none }

theorem Context.ofValue_toValue (c : Context Value) : ofValue c.toValue = .ok c.readBack := rfl

/-- Every payload can be read. -/
theorem Record.ofValue_payload (r : Record) : ofValue r.payload = .ok r.readBack := rfl

theorem Record.readEmbedding_list_float (xs : List Double) :
    readEmbedding (.list (xs.map .float)) = .ok (some xs) := by
  have hxs : (xs.map Value.float).mapM Value.toDouble = .ok xs := by
    rw [List.mapM_map]
    exact (mapM_eq_ok_map fun x _ => rfl).trans (congrArg Except.ok (List.map_id' xs))
  simp only [readEmbedding, Value.elements, hxs, bind, Except.bind]
  rfl

/-- The object of a record is read with its embedding. -/
theorem Record.ofValue_toValue (r : Record) :
    ofValue r.toValue = .ok { r.readBack with embedding := r.embedding } := by
  cases h : r.embedding with
  | none =>
    rw [toValue, h]
    exact ofValue_payload r
  | some xs =>
    rw [toValue, h]
    change (readEmbedding (.list (xs.map .float)) >>= fun embedding =>
      Except.ok { r.readBack with embedding := embedding }) = _
    rw [readEmbedding_list_float]
    rfl

theorem Record.isPresent_payload (r : Record) : r.payload.isPresent = true := rfl

/-- The texts of an entity are read back as they are. -/
theorem Entity.readBack_toRecord (e : Entity Text) :
    e.toRecord.readBack = Entity.toRecord { e with embedding := none } := by
  unfold Record.readBack Context.readBack toRecord Entity.map Context.map
  simp

/-- The object of an entity is read back as that entity. -/
theorem Entity.ofValue_toValue_toRecord (e : Entity Text) :
    Record.ofValue e.toRecord.toValue = .ok e.toRecord := by
  rw [Record.ofValue_toValue, e.readBack_toRecord]
  rfl

/-! ## Payloads that a document can hold -/

namespace Value

/-- An optional text has a JSON form. -/
@[simp] theorem isSerializable_ofOption_text (t : Option Text) :
    isSerializable (ofOption (t.map text)) = true := by
  cases t <;> rfl

/-- The integers that are not too long for a document are those below a power of ten. -/
theorem isShort_iff {i : Int} :
    isShort i = true ↔ i.natAbs < tenTo Text.maxIntegerDigits := by
  rw [isShort, decide_eq_true_eq, Text.ofNat, Text.ofString, List.length_map, String.length_toList,
    Nat.toString_eq_repr, Nat.length_repr_le_iff (by decide), tenTo, Nat.pow_eq]

end Value

/-- None of an entity's line numbers has too many digits for a document. -/
def Entity.hasShortLines (e : Entity Text) : Bool :=
  [e.line, e.lineFrom, e.lineTo].all Value.isShort

theorem Entity.hasShortLines_iff (e : Entity Text) :
    e.hasShortLines = true ↔ Value.isShort e.line = true ∧ Value.isShort e.lineFrom = true ∧
      Value.isShort e.lineTo = true := by
  simp [hasShortLines]

/-- A document can hold the payload of an entity unless a line number has too many digits. -/
theorem Entity.isSerializable_payload (e : Entity Text) :
    e.toRecord.payload.isSerializable = e.hasShortLines := by
  simp [toRecord, Entity.map, Context.map, Record.payload, Record.payloadMembers,
    Context.toValue, Value.isSerializable, Value.haveSerializable, hasShortLines]

end CodeCatalog
