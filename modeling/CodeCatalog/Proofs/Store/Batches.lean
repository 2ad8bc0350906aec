import CodeCatalog.Store
set_option autoImplicit false

/-!
# Batches

A list is cut into batches of one size and a shorter rest.  The first batches are the front of the
list, all of them the list itself, and there are as many as the size goes into the length, rounded
up.
-/

namespace CodeCatalog.VectorStore

variable {α : Type} {size : Nat} {pos : 0 < size} {xs batch : List α}

/-- Batches hold all elements in their order. -/
theorem flatten_batches (size : Nat) (pos : 0 < size) (xs : List α) :
    (batches size pos xs).flatten = xs := by
  fun_induction batches size pos xs with
  | case1 => rfl
  | case2 x rest ih => rw [List.flatten_cons, ih, List.take_append_drop]

theorem batches_of_ne_nil (h : xs ≠ []) :
    batches size pos xs = xs.take size :: batches size pos (xs.drop size) := by
  cases xs with
  | nil => exact absurd rfl h
  | cons x rest => rw [batches]

/-- The batches of the front of a list are its first batches. -/
theorem batches_take (size : Nat) (pos : 0 < size) (k : Nat) (xs : List α) :
    batches size pos (xs.take (k * size)) = (batches size pos xs).take k := by
  induction k generalizing xs with
  | zero => rw [Nat.zero_mul, List.take_zero, List.take_zero, batches]
  | succ k ih =>
    by_cases hxs : xs = []
    · rw [hxs, List.take_nil, batches, List.take_nil]
    · have hsize : (k + 1) * size = size + k * size := by rw [Nat.succ_mul, Nat.add_comm]
      have hfront : xs.take ((k + 1) * size) ≠ [] := by
        rw [Ne, List.take_eq_nil_iff, not_or]
        exact ⟨by omega, hxs⟩
      rw [batches_of_ne_nil hfront, batches_of_ne_nil hxs, List.take_succ_cons, hsize,
        List.take_take, Nat.min_eq_left (Nat.le_add_right _ _), List.drop_take,
        Nat.add_sub_cancel_left, ih]

/-- The first batches hold the first elements. -/
theorem flatten_take_batches (size : Nat) (pos : 0 < size) (k : Nat) (xs : List α) :
    ((batches size pos xs).take k).flatten = xs.take (k * size) := by
  rw [← batches_take, flatten_batches]

theorem ne_nil_of_mem_batches (h : batch ∈ batches size pos xs) : batch ≠ [] := by
  fun_induction batches size pos xs with
  | case1 => cases h
  | case2 x rest ih =>
    rcases List.mem_cons.1 h with rfl | h
    · simp [Nat.ne_of_gt pos]
    · exact ih h

theorem length_le_of_mem_batches (h : batch ∈ batches size pos xs) : batch.length ≤ size := by
  fun_induction batches size pos xs with
  | case1 => cases h
  | case2 x rest ih =>
    rcases List.mem_cons.1 h with rfl | h
    · exact List.length_take_le _ _
    · exact ih h

/-- The number of batches is the length divided by the size, rounded up. -/
theorem length_batches (size : Nat) (pos : 0 < size) (xs : List α) :
    (batches size pos xs).length = (xs.length + size - 1) / size := by
  fun_induction batches size pos xs with
  | case1 => exact (Nat.div_eq_of_lt (by simp; omega)).symm
  | case2 x rest ih =>
    rw [List.length_cons, ih, List.length_drop]
    rcases Nat.lt_or_ge (x :: rest).length size with hshort | hlong
    · have hrest : ((x :: rest).length - size + size - 1) / size = 0 :=
        Nat.div_eq_of_lt (by omega)
      have hlength : 0 < (x :: rest).length := Nat.succ_pos _
      have hone : ((x :: rest).length + size - 1) / size = 1 :=
        Nat.div_eq_of_lt_le (by omega) (by omega)
      rw [hrest, hone]
    · have hnext : (x :: rest).length + size - 1 = (x :: rest).length - size + size - 1 + size := by
        omega
      rw [hnext, Nat.add_div_right _ pos]

end CodeCatalog.VectorStore
