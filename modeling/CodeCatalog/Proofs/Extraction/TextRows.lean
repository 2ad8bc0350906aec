import CodeCatalog.Proofs.Extraction.Row
import CodeCatalog.Proofs.Text.ByteLines
set_option autoImplicit false

/-!
# The rows of a text

The text between two offsets has a line for each row from that of the first offset to that of the
second one, and the line is what is read of the bytes of that row between the offsets.  This holds
for any bytes and any offsets, also where an offset cuts a character: a tolerant reading makes a
line feed of the byte of one and of nothing else.
-/

namespace CodeCatalog

/-- A tolerant reading has as many line feeds as the bytes. -/
theorem Utf8.count_decodeTolerant (bs : Bytes) :
    (decodeTolerant bs).count Glyph.newline = bs.count newlineByte := by
  have hlines : (decodeTolerant bs).count Glyph.newline + 1 = bs.count newlineByte + 1 := by
    rw [← Text.length_splitOn, ← Text.length_splitOn]
    exact length_lines_decodeTolerant bs
  exact Nat.succ.inj hlines

namespace Source

variable {source : Bytes} {a b r : Nat} {x : UInt8}

/-- The bytes between two offsets that are in a row, without the line feed at its end. -/
def rowPart (source : Bytes) (a b r : Nat) : Bytes :=
  (List.range' a (b - a)).filterMap fun o =>
    source[o]?.filter fun x => row source o == r && x != newlineByte

/-- The rows from that of one offset to that of another one. -/
def rowsBetween (source : Bytes) (a b : Nat) : List Nat :=
  List.range' (row source a) (row source b - row source a + 1)

/-! ## The first byte of a range -/

theorem slice_eq_cons (hab : a < b) (hx : source[a]? = some x) :
    slice source a b = x :: slice source (a + 1) b := by
  have hlength : b - a = b - (a + 1) + 1 := by omega
  obtain ⟨ha, rfl⟩ := List.getElem?_eq_some_iff.1 hx
  rw [slice, slice, List.drop_eq_getElem_cons ha, hlength, List.take_succ_cons]

/-- A line feed is the last byte of its row. -/
theorem row_succ (hx : source[a]? = some x) :
    row source (a + 1) = row source a + if x = newlineByte then 1 else 0 := by
  rw [row_eq_add_count_slice (Nat.le_succ a), slice_eq_cons (Nat.lt_succ_self a) hx]
  simp [slice, List.count_cons]

theorem rowPart_eq (hab : a < b) (hx : source[a]? = some x) :
    rowPart source a b r =
      if row source a = r ∧ x ≠ newlineByte then x :: rowPart source (a + 1) b r
      else rowPart source (a + 1) b r := by
  have hlength : b - a = b - (a + 1) + 1 := by omega
  rw [rowPart, hlength, List.range'_succ, List.filterMap_cons, hx, ← rowPart, Option.filter_some]
  by_cases h : row source a = r ∧ x ≠ newlineByte
  · have htest : (row source a == r && x != newlineByte) = true := by simpa using h
    rw [if_pos h, if_pos htest]
  · have htest : ¬(row source a == r && x != newlineByte) = true := by simpa using h
    rw [if_neg h, if_neg htest]

/-- There are no bytes of a row behind it. -/
theorem rowPart_of_lt_row (h : r < row source a) : rowPart source a b r = [] := by
  rw [rowPart, List.filterMap_eq_nil_iff]
  intro o ho
  have hrow : row source a ≤ row source o := row_le_row (List.mem_range'_1.1 ho).1
  refine Option.filter_eq_none_iff.2 fun y _ => ?_
  simp [Nat.ne_of_gt (Nat.lt_of_lt_of_le h hrow)]

/-! ## Rows and lines -/

/-- The parts between the line feeds of a range are its rows. -/
theorem byteLines_slice (hab : a ≤ b) (hb : b ≤ source.length) :
    Utf8.byteLines (slice source a b) = (rowsBetween source a b).map (rowPart source a b) := by
  -- The induction is on the bytes that are left, the first of which ends its row or goes on in it.
  induction hlength : b - a generalizing a with
  | zero =>
    obtain rfl : a = b := by omega
    simp [slice, rowsBetween, rowPart, Utf8.byteLines]
  | succ n ih =>
    have hlt : a < b := by omega
    obtain ⟨x, hx⟩ : ∃ x, source[a]? = some x :=
      ⟨_, List.getElem?_eq_getElem (Nat.lt_of_lt_of_le hlt hb)⟩
    have hnext : a + 1 ≤ b := hlt
    have hrest := ih hnext (by omega)
    have hrow := row_succ hx
    have hle : row source (a + 1) ≤ row source b := row_le_row hnext
    rw [Utf8.byteLines, slice_eq_cons hlt hx, List.splitOn_cons_eq_if_modifyHead,
      ← Utf8.byteLines, hrest]
    by_cases hnewline : x = newlineByte
    · -- The row of the line feed has no more bytes, and the others are those behind it.
      rw [if_pos hnewline] at hrow
      have hfirst : rowPart source a b (row source a) = [] := by
        rw [rowPart_eq hlt hx, if_neg fun h => h.2 hnewline]
        exact rowPart_of_lt_row (by omega)
      have hrows : rowsBetween source a b = row source a :: rowsBetween source (a + 1) b := by
        have hcount : row source b - row source a = row source b - row source (a + 1) + 1 := by
          omega
        rw [rowsBetween, rowsBetween, List.range'_succ, hcount, hrow]
      rw [if_pos (by simp [hnewline]), hrows, List.map_cons, hfirst]
      refine congrArg ([] :: ·) (List.map_congr_left fun r _ => ?_)
      rw [rowPart_eq hlt hx, if_neg fun h => h.2 hnewline]
    · -- The byte is the first one of its row, and the rows are the same.
      have hsame : row source (a + 1) = row source a := by simp [hrow, hnewline]
      have hrows : rowsBetween source (a + 1) b = rowsBetween source a b := by
        rw [rowsBetween, rowsBetween, hsame]
      rw [if_neg (by simp [hnewline]), hrows, rowsBetween, List.range'_succ, List.map_cons,
        List.map_cons, List.modifyHead_cons]
      refine congrArg₂ List.cons ?_ (List.map_congr_left fun r hr => ?_)
      · rw [rowPart_eq hlt hx, if_pos ⟨rfl, hnewline⟩]
      · have hbelow : row source a ≠ r := by
          have hstart := (List.mem_range'_1.1 hr).1
          omega
        rw [rowPart_eq hlt hx, if_neg fun h => hbelow h.1]

/-- A text has as many line feeds as there are rows from its first offset to its second one, and its
lines are what is read of these rows between the offsets. -/
theorem text_followsRows (source : Bytes) {a b : Nat} (hab : a ≤ b) (hb : b ≤ source.length) :
    row source a + (text source a b).count Glyph.newline = row source b ∧
      (text source a b).lines =
        (rowsBetween source a b).map fun r => Utf8.decodeTolerant (rowPart source a b r) := by
  constructor
  · rw [text, Utf8.count_decodeTolerant, row_eq_add_count_slice hab]
  · rw [text, Utf8.lines_decodeTolerant, byteLines_slice hab hb, List.map_map]
    rfl

/-- A range that cuts a character of three bytes and one of four bytes, with a line feed behind a
leading byte and one before a lone tail. -/
def brokenRange : Bytes := [0xE2, 0x82, 0xAC, 0xC3, 0x0A, 0xF0, 0x9F, 0x0A, 0x98, 0xF0, 0x9F, 0x98]

theorem text_followsRows_brokenRange :
    (1 ≤ 11 ∧ 11 ≤ brokenRange.length) ∧
      row brokenRange 1 + (text brokenRange 1 11).count Glyph.newline = row brokenRange 11 ∧
      (text brokenRange 1 11).lines = ["\uFFFD\uFFFD\uFFFD", "\uFFFD", "\uFFFD\uFFFD"] := by
  have hab : 1 ≤ 11 := by decide
  have hb : 11 ≤ brokenRange.length := by decide
  obtain ⟨hrows, hlines⟩ := text_followsRows brokenRange hab hb
  refine ⟨⟨hab, hb⟩, hrows, ?_⟩
  rw [hlines]
  decide

end Source

end CodeCatalog
