import Mathlib.Algebra.Order.BigOperators.Group.List
import Mathlib.Algebra.Ring.Nat
import Mathlib.Data.List.Forall2
import CodeCatalog.Proofs.Text.Lines
import CodeCatalog.Proofs.Text.Utf8
import CodeCatalog.Tree
set_option autoImplicit false

/-!
# Lines of bytes

The byte of a line feed is a segment by itself and never part of another one, whatever stands
around it.  So a tolerant reading goes through line feeds as they stand: the lines of what is read
are the readings of the lines of the bytes, also where characters are cut or ill-formed.
-/

namespace CodeCatalog.Utf8

/-- The bytes between line feeds. -/
def byteLines (bs : Bytes) : List Bytes := bs.splitOn newlineByte

/-! ## Segments around a line feed -/

/-- A tail ends before a line feed. -/
theorem newlineByte_lt_of_mem {lead : UInt8} {ranges : List (UInt8 × UInt8)}
    (h : tailRanges? lead = some ranges) : ∀ r ∈ ranges, newlineByte < r.1 := by
  unfold tailRanges? at h
  repeat' split at h
  all_goals
    first
    | contradiction
    | obtain rfl := Option.some.inj h
      simp [newlineByte]

theorem takeTail_append_newline {ranges : List (UInt8 × UInt8)} (bs rest : Bytes)
    (h : ∀ r ∈ ranges, newlineByte < r.1) :
    (takeTail ranges (bs ++ newlineByte :: rest)).1 = (takeTail ranges bs).1 ∧
      (takeTail ranges (bs ++ newlineByte :: rest)).2.isSome = (takeTail ranges bs).2.isSome := by
  induction ranges generalizing bs with
  | nil => exact ⟨rfl, rfl⟩
  | cons r ranges ih =>
    obtain ⟨hr, hranges⟩ := List.forall_mem_cons.1 h
    cases bs with
    | nil => simp [takeTail, UInt8.not_le.2 hr]
    | cons b bs =>
      simp only [List.cons_append, takeTail]
      split
      · obtain ⟨htail, hdefect⟩ := ih bs hranges
        exact ⟨congrArg (b :: ·) htail, hdefect⟩
      · exact ⟨rfl, rfl⟩

theorem length_takeTail_le (ranges : List (UInt8 × UInt8)) (bs : Bytes) :
    (takeTail ranges bs).1.length ≤ bs.length := by
  induction ranges generalizing bs with
  | nil => exact Nat.zero_le _
  | cons r ranges ih =>
    cases bs with
    | nil => exact Nat.le_refl _
    | cons b bs =>
      simp only [takeTail]
      split
      · exact Nat.succ_le_succ (ih bs)
      · exact Nat.zero_le _

/-- A segment with a tail shows a character if the tail is complete. -/
theorem firstSegment_of_tailRanges {lead : UInt8} {ranges : List (UInt8 × UInt8)}
    (h : tailRanges? lead = some ranges) (rest : Bytes) :
    (firstSegment lead rest).1.shown =
        (if (takeTail ranges rest).2.isSome then '\uFFFD'
          else charOf lead (takeTail ranges rest).1) ∧
      (firstSegment lead rest).2 = (takeTail ranges rest).1.length := by
  simp only [firstSegment, h]
  rcases takeTail ranges rest with ⟨tail, _ | defect⟩ <;> exact ⟨rfl, rfl⟩

theorem firstSegment_of_tailRanges_none {lead : UInt8} (h : tailRanges? lead = none)
    (rest : Bytes) : firstSegment lead rest = (.bad [lead] .badStart, 0) := by
  rw [firstSegment, h]

/-- What comes behind a line feed has no influence on the segment before it. -/
theorem firstSegment_append_newline (lead : UInt8) (bs rest : Bytes) :
    (firstSegment lead (bs ++ newlineByte :: rest)).1.shown = (firstSegment lead bs).1.shown ∧
      (firstSegment lead (bs ++ newlineByte :: rest)).2 = (firstSegment lead bs).2 := by
  cases hranges : tailRanges? lead with
  | none =>
    rw [firstSegment_of_tailRanges_none hranges, firstSegment_of_tailRanges_none hranges]
    exact ⟨rfl, rfl⟩
  | some ranges =>
    obtain ⟨htail, hdefect⟩ := takeTail_append_newline bs rest (newlineByte_lt_of_mem hranges)
    obtain ⟨hshown, hwidth⟩ := firstSegment_of_tailRanges hranges bs
    obtain ⟨hshown', hwidth'⟩ := firstSegment_of_tailRanges hranges (bs ++ newlineByte :: rest)
    rw [hshown, hwidth, hshown', hwidth', htail, hdefect]
    exact ⟨rfl, rfl⟩

theorem firstSegment_width_le (lead : UInt8) (bs : Bytes) :
    (firstSegment lead bs).2 ≤ bs.length := by
  cases hranges : tailRanges? lead with
  | none =>
    rw [firstSegment_of_tailRanges_none hranges]
    exact Nat.zero_le _
  | some ranges =>
    rw [(firstSegment_of_tailRanges hranges bs).2]
    exact length_takeTail_le ranges bs

/-! ## Reading around a line feed -/

/-- What a tolerant reading shows of the bytes after the first `skip`. -/
def readAfter (skip : Nat) (bs : Bytes) : Text :=
  (segmentsAfter skip bs).map fun s => .scalar s.shown

theorem readAfter_append_newline (skip : Nat) (bs rest : Bytes) (h : skip ≤ bs.length) :
    readAfter skip (bs ++ newlineByte :: rest) =
      readAfter skip bs ++ Glyph.newline :: readAfter 0 rest := by
  induction bs generalizing skip with
  | nil =>
    obtain rfl : skip = 0 := Nat.le_zero.1 h
    rfl
  | cons b bs ih =>
    cases skip with
    | succ skip => exact ih skip (Nat.le_of_succ_le_succ h)
    | zero =>
      obtain ⟨hshown, hwidth⟩ := firstSegment_append_newline b bs rest
      have hrest := ih (firstSegment b bs).2 (firstSegment_width_le b bs)
      simp only [readAfter, List.cons_append, segmentsAfter, List.map_cons, hshown,
        hwidth] at hrest ⊢
      rw [hrest]

/-- A line feed is read as it stands, and what is on either side of it is read by itself. -/
theorem decodeTolerant_append_newline (bs rest : Bytes) :
    decodeTolerant (bs ++ newlineByte :: rest) =
      decodeTolerant bs ++ Glyph.newline :: decodeTolerant rest :=
  readAfter_append_newline 0 bs rest (Nat.zero_le _)

/-! ## Characters other than a line feed -/

theorem le_foldl_tail (n : Nat) (tail : Bytes) :
    n * 64 ^ tail.length ≤ tail.foldl (fun n b => n * 64 + (b.toNat - 0x80)) n := by
  induction tail generalizing n with
  | nil => exact Nat.le_of_eq (Nat.mul_one n)
  | cons b tail ih =>
    rw [List.length_cons, Nat.pow_succ', ← Nat.mul_assoc, List.foldl_cons]
    exact Nat.le_trans (Nat.mul_le_mul_right _ (Nat.le_add_right _ _)) (ih _)

theorem leadBits_one (lead : UInt8) : leadBits lead 1 = lead.toNat - 0xC0 := rfl

theorem leadBits_two (lead : UInt8) : leadBits lead 2 = lead.toNat - 0xE0 := rfl

theorem leadBits_three (lead : UInt8) : leadBits lead 3 = lead.toNat - 0xF0 := rfl

/-- The number of a character with a tail is beyond those of one byte, also for the least second
byte. -/
theorem le_leadBits {lead : UInt8} {r : UInt8 × UInt8} {ranges : List (UInt8 × UInt8)}
    (h : tailRanges? lead = some (r :: ranges)) :
    0x80 ≤ (leadBits lead (ranges.length + 1) * 64 + (r.1.toNat - 0x80)) *
      64 ^ ranges.length := by
  unfold tailRanges? at h
  simp only [UInt8.lt_iff_toNat_lt, UInt8.le_iff_toNat_le, ← UInt8.toNat_inj,
    UInt8.reduceToNat] at h
  -- One case for each row of the table, those without a tail apart.
  repeat' split at h
  all_goals simp only [Option.some.injEq, List.cons.injEq, reduceCtorEq] at h
  all_goals
    obtain ⟨rfl, rfl⟩ := h
    simp only [List.length_cons, List.length_nil, Nat.reduceAdd, leadBits_one, leadBits_two,
      leadBits_three, UInt8.reduceToNat]
    omega

/-- A complete tail has a byte for each range, the first of which is in the first range. -/
theorem takeTail_complete {ranges : List (UInt8 × UInt8)} {bs : Bytes}
    (h : (takeTail ranges bs).2 = none) :
    List.Forall₂ (fun r b => r.1 ≤ b ∧ b ≤ r.2) ranges (takeTail ranges bs).1 := by
  induction ranges generalizing bs with
  | nil => exact .nil
  | cons r ranges ih =>
    cases bs with
    | nil => cases h
    | cons b bs =>
      simp only [takeTail] at h ⊢
      split
      · rename_i hin
        rw [if_pos hin] at h
        rw [Bool.and_eq_true, decide_eq_true_eq, decide_eq_true_eq] at hin
        exact .cons hin (ih h)
      · rename_i hout
        rw [if_neg hout] at h
        cases h

theorem ofNat_ne_newline {n : Nat} (h : n ≠ 10) : Char.ofNat n ≠ '\n' := by
  intro hchar
  by_cases hvalid : n.isValidChar
  · rw [Char.ofNat, dif_pos hvalid] at hchar
    exact h (congrArg (fun c => c.val.toNat) hchar)
  · rw [Char.ofNat, dif_neg hvalid] at hchar
    cases hchar

theorem charOf_ne_newline {lead : UInt8} {ranges : List (UInt8 × UInt8)} {bs : Bytes}
    (hlead : lead ≠ newlineByte) (hranges : tailRanges? lead = some ranges)
    (h : (takeTail ranges bs).2 = none) : charOf lead (takeTail ranges bs).1 ≠ '\n' := by
  have hcomplete := takeTail_complete h
  generalize (takeTail ranges bs).1 = tail at hcomplete ⊢
  refine ofNat_ne_newline ?_
  cases hcomplete with
  | nil =>
    have hnat : lead.toNat ≠ newlineByte.toNat := fun heq => hlead (UInt8.toNat_inj.1 heq)
    exact hnat
  | @cons r b ranges tail hin htail =>
    have hleast := le_leadBits hranges
    have hfirst : r.1.toNat ≤ b.toNat := UInt8.le_iff_toNat_le.1 hin.1
    have hvalue := le_foldl_tail (leadBits lead (b :: tail).length * 64 + (b.toNat - 0x80)) tail
    rw [htail.length_eq] at hleast
    have hsecond := Nat.add_le_add_left (Nat.sub_le_sub_right hfirst 0x80)
      (leadBits lead (tail.length + 1) * 64)
    have hmore := Nat.mul_le_mul_right (64 ^ tail.length) hsecond
    rw [List.foldl_cons]
    rw [List.length_cons] at hvalue ⊢
    omega

/-- Only the byte of a line feed begins a segment that is shown as one. -/
theorem firstSegment_shown_ne_newline {lead : UInt8} (hlead : lead ≠ newlineByte) (bs : Bytes) :
    (firstSegment lead bs).1.shown ≠ '\n' := by
  cases hranges : tailRanges? lead with
  | none =>
    rw [firstSegment_of_tailRanges_none hranges, Segment.shown]
    decide
  | some ranges =>
    rw [(firstSegment_of_tailRanges hranges bs).1]
    split
    · decide
    · rename_i hcomplete
      exact charOf_ne_newline hlead hranges (Option.not_isSome_iff_eq_none.1 hcomplete)

theorem newline_notMem_readAfter {bs : Bytes} (skip : Nat) (h : newlineByte ∉ bs) :
    Glyph.newline ∉ readAfter skip bs := by
  induction bs generalizing skip with
  | nil => cases skip <;> exact List.not_mem_nil
  | cons b bs ih =>
    obtain ⟨hb, hbs⟩ := not_or.1 (mt List.mem_cons.2 h)
    cases skip with
    | succ skip => exact ih skip hbs
    | zero =>
      intro hmem
      rcases List.mem_cons.1 hmem with heq | hmem
      · exact firstSegment_shown_ne_newline (Ne.symm hb) bs (Glyph.scalar.inj heq).symm
      · exact ih _ hbs hmem

/-- Bytes without a line feed are read as a text without one. -/
theorem newline_notMem_decodeTolerant {bs : Bytes} (h : newlineByte ∉ bs) :
    Glyph.newline ∉ decodeTolerant bs := newline_notMem_readAfter 0 h

/-! ## Lines -/

theorem newlineByte_notMem_of_mem_byteLines {bs line : Bytes} (h : line ∈ byteLines bs) :
    newlineByte ∉ line := Text.separator_notMem_of_mem_splitOn h

theorem byteLines_ne_nil (bs : Bytes) : byteLines bs ≠ [] := List.splitOn_ne_nil _ _

theorem decodeTolerant_intercalate (parts : List Bytes) :
    decodeTolerant ([newlineByte].intercalate parts) =
      Text.joinLines (parts.map decodeTolerant) := by
  induction parts with
  | nil => rfl
  | cons part parts ih =>
    cases parts with
    | nil => simp
    | cons next parts =>
      have hbytes : [newlineByte].intercalate (part :: next :: parts) =
          part ++ newlineByte :: [newlineByte].intercalate (next :: parts) := by
        rw [List.intercalate_cons_of_ne_nil (List.cons_ne_nil next parts), List.append_assoc]
        rfl
      have htexts : Text.joinLines ((part :: next :: parts).map decodeTolerant) =
          decodeTolerant part ++
            Glyph.newline :: Text.joinLines ((next :: parts).map decodeTolerant) := by
        rw [List.map_cons, Text.joinLines, Text.joinWith_cons (by simp), List.append_assoc]
        rfl
      rw [hbytes, decodeTolerant_append_newline, ih, htexts]

/-- The lines of what is read are the readings of the lines of the bytes. -/
theorem lines_decodeTolerant (bs : Bytes) :
    (decodeTolerant bs).lines = (byteLines bs).map decodeTolerant := by
  have hread := decodeTolerant_intercalate (byteLines bs)
  rw [byteLines, List.intercalate_splitOn, ← byteLines] at hread
  rw [hread]
  refine Text.lines_joinLines (by simp [byteLines_ne_nil]) ?_
  intro line hline
  obtain ⟨part, hpart, rfl⟩ := List.mem_map.1 hline
  exact newline_notMem_decodeTolerant (newlineByte_notMem_of_mem_byteLines hpart)

theorem length_lines_decodeTolerant (bs : Bytes) :
    (decodeTolerant bs).lines.length = (byteLines bs).length := by
  rw [lines_decodeTolerant, List.length_map]

/-! ## Where a line starts -/

/-- The offset of a line: those before it are counted with one line feed each. -/
def lineOffset (bs : Bytes) (j : Nat) : Nat :=
  (((byteLines bs).take j).map fun line => line.length + 1).sum

/-- Some of the parts, each with a separator behind it, and then the others. -/
theorem intercalate_eq_flatMap_append {α : Type} {sep : α} {parts : List (List α)} {j : Nat}
    (hj : j < parts.length) :
    [sep].intercalate parts =
      (parts.take j).flatMap (· ++ [sep]) ++ [sep].intercalate (parts.drop j) := by
  induction j generalizing parts with
  | zero => rfl
  | succ j ih =>
    cases parts with
    | nil => exact absurd hj (Nat.not_lt_zero _)
    | cons part parts =>
      have hrest : j < parts.length := Nat.lt_of_succ_lt_succ hj
      have hne : parts ≠ [] := List.ne_nil_of_length_pos (Nat.zero_lt_of_lt hrest)
      rw [List.intercalate_cons_of_ne_nil hne, ih hrest, List.take_succ_cons, List.flatMap_cons,
        List.drop_succ_cons, List.append_assoc _ _ ([sep].intercalate _)]

theorem decodeTolerant_flatMap_newline (parts : List Bytes) :
    decodeTolerant (parts.flatMap (· ++ [newlineByte])) =
      (parts.map decodeTolerant).flatMap (· ++ [Glyph.newline]) := by
  induction parts with
  | nil => rfl
  | cons part parts ih =>
    rw [List.flatMap_cons, List.append_assoc, List.singleton_append, decodeTolerant_append_newline,
      ih, List.map_cons, List.flatMap_cons, List.append_assoc, List.singleton_append]

section LineOffset

variable {bs : Bytes} {j : Nat} (hj : j < (byteLines bs).length)

include hj in
theorem take_drop_lineOffset :
    bs.take (lineOffset bs j) = ((byteLines bs).take j).flatMap (· ++ [newlineByte]) ∧
      bs.drop (lineOffset bs j) = [newlineByte].intercalate ((byteLines bs).drop j) := by
  have hbytes : bs = ((byteLines bs).take j).flatMap (· ++ [newlineByte]) ++
      [newlineByte].intercalate ((byteLines bs).drop j) :=
    (List.intercalate_splitOn newlineByte).symm.trans (intercalate_eq_flatMap_append hj)
  have hlength : (((byteLines bs).take j).flatMap (· ++ [newlineByte])).length =
      lineOffset bs j := by
    simp [lineOffset, List.length_flatMap]
  rw [← hlength]
  generalize ((byteLines bs).take j).flatMap (· ++ [newlineByte]) = before at hbytes ⊢
  generalize [newlineByte].intercalate ((byteLines bs).drop j) = behind at hbytes ⊢
  rw [hbytes]
  exact ⟨List.take_left, List.drop_left⟩

include hj in
theorem lineOffset_le : lineOffset bs j ≤ bs.length := by
  have hlength : (bs.take (lineOffset bs j)).length = lineOffset bs j := by
    rw [(take_drop_lineOffset hj).1]
    simp [lineOffset, List.length_flatMap]
  rw [← hlength]
  exact List.length_take_le' _ _

include hj in
/-- As many line feeds are before a line as lines are. -/
theorem count_take_lineOffset : (bs.take (lineOffset bs j)).count newlineByte = j := by
  have hcount : ((byteLines bs).take j).map (List.count newlineByte ∘ (· ++ [newlineByte])) =
      ((byteLines bs).take j).map fun _ => 1 := by
    refine List.map_congr_left fun line hline => ?_
    have hmem := newlineByte_notMem_of_mem_byteLines (List.mem_of_mem_take hline)
    rw [Function.comp_apply, List.count_append, List.count_eq_zero.2 hmem,
      List.count_singleton_self]
  rw [(take_drop_lineOffset hj).1, List.count_flatMap, hcount, List.map_const', List.length_take,
    Nat.min_eq_left (Nat.le_of_lt hj), List.sum_replicate_nat, Nat.mul_one]

include hj in
theorem decodeTolerant_take_lineOffset :
    decodeTolerant (bs.take (lineOffset bs j)) =
      ((decodeTolerant bs).lines.take j).flatMap (· ++ [Glyph.newline]) := by
  rw [(take_drop_lineOffset hj).1, decodeTolerant_flatMap_newline, lines_decodeTolerant,
    List.map_take]

include hj in
theorem decodeTolerant_drop_lineOffset :
    decodeTolerant (bs.drop (lineOffset bs j)) =
      Text.joinLines ((decodeTolerant bs).lines.drop j) := by
  rw [(take_drop_lineOffset hj).2, decodeTolerant_intercalate, lines_decodeTolerant, List.map_drop]

end LineOffset

end CodeCatalog.Utf8
