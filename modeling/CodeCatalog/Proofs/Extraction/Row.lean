import CodeCatalog.Tree
set_option autoImplicit false

/-!
# Rows of a source

The row of an offset counts the line feeds before it, so rows grow with offsets, and the first
offset of a row below the first one comes right behind a line feed.  A node that covers a byte of
the source therefore starts no later than any node around it ends, also where that node ends at the
start of a row that it does not reach into.
-/

namespace CodeCatalog

namespace Source

variable {source : Bytes} {a b : Nat}

/-- The bytes before a later offset are those before an earlier one and some more. -/
theorem take_eq_take_append_slice (source : Bytes) (h : a ≤ b) :
    source.take b = source.take a ++ slice source a b := by
  have hb : a + (b - a) = b := by omega
  rw [slice, ← List.take_add, hb]

theorem row_eq_add_count_slice (h : a ≤ b) :
    row source b = row source a + (slice source a b).count newlineByte := by
  rw [row, row, take_eq_take_append_slice source h, List.count_append]

theorem row_le_row (h : a ≤ b) : row source a ≤ row source b := by
  rw [row_eq_add_count_slice h]
  exact Nat.le_add_right _ _

theorem slice_ne_nil_iff : slice source a b ≠ [] ↔ a < b ∧ a < source.length := by
  rw [slice, ← List.length_pos_iff, List.length_take, List.length_drop]
  omega

/-- The first offset of a row is in a later row than any byte before it. -/
theorem row_lt_row_of_atRowStart (hrow : atRowStart source b = true) (hab : a < b)
    (ha : a < source.length) : row source a < row source b := by
  have hslice : slice source a b ≠ [] := slice_ne_nil_iff.2 ⟨hab, ha⟩
  have htake := take_eq_take_append_slice source (Nat.le_of_lt hab)
  obtain ⟨before, last, hlast⟩ : ∃ before last, slice source a b = before ++ [last] :=
    ⟨_, _, (List.dropLast_concat_getLast hslice).symm⟩
  have hnewline : last = newlineByte := by
    unfold atRowStart at hrow
    rw [htake, hlast, ← List.append_assoc, List.getLast?_concat] at hrow
    exact beq_iff_eq.1 hrow
  have hcount : 0 < (slice source a b).count newlineByte := by
    rw [List.count_pos_iff, hlast, hnewline]
    exact List.mem_concat_self
  rw [row_eq_add_count_slice (Nat.le_of_lt hab)]
  omega

theorem text_of_slice_eq_nil (h : slice source a b = []) : text source a b = [] := by
  rw [text, h]
  rfl

end Source

namespace Node

variable {source : Bytes} {c n : Node}

/-- The node covers at least one byte of the source. -/
def CoversByte (source : Bytes) (n : Node) : Prop := n.start < n.stop ∧ n.start < source.length

instance (source : Bytes) (n : Node) : Decidable (n.CoversByte source) :=
  inferInstanceAs (Decidable (_ ∧ _))

theorem coversByte_of_text_ne_nil (h : n.text source ≠ []) : n.CoversByte source := by
  refine Source.slice_ne_nil_iff.1 fun hslice => h ?_
  exact Source.text_of_slice_eq_nil hslice

theorem one_le_startLine (source : Bytes) (n : Node) : 1 ≤ n.startLine source :=
  Nat.le_add_left _ _

theorem startLine_le_startLine (h : n.start ≤ c.start) : n.startLine source ≤ c.startLine source :=
  Nat.succ_le_succ (Source.row_le_row h)

/-- A node ends no later than another one starts that it does not reach beyond. -/
theorem endLine_le_startLine (h : n.stop ≤ c.start) : n.endLine source ≤ c.startLine source := by
  have hrow : Source.row source n.stop ≤ Source.row source c.start := Source.row_le_row h
  unfold endLine startLine startRow
  simp only
  split <;> omega

/-- A node that covers a byte starts no later than another one ends that does not stop before
it. -/
theorem startLine_le_endLine (hc : c.CoversByte source) (hstop : c.stop ≤ n.stop) :
    c.startLine source ≤ n.endLine source := by
  obtain ⟨hlt, hlength⟩ := hc
  have hbefore : c.start < n.stop := Nat.lt_of_lt_of_le hlt hstop
  unfold endLine startLine startRow
  simp only
  split
  · rename_i hends
    rw [Bool.and_eq_true] at hends
    exact Source.row_lt_row_of_atRowStart hends.1 hbefore hlength
  · exact Nat.succ_le_succ (Source.row_le_row (Nat.le_of_lt hbefore))

end Node

end CodeCatalog
