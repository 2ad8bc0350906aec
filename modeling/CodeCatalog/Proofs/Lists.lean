import Mathlib.Data.List.Basic
set_option autoImplicit false

/-!
# Parts, traversals and stable sorts

What several developments use about lists: where one element gives all that is put together, a
traversal whose steps all succeed does, one that fails does so at its first step that fails, and a
sort keeps the order of elements that it holds for equal.
-/

namespace CodeCatalog

variable {α β ε : Type}

/-! ## Parts of a list -/

theorem head?_eq_or_mem_tail {xs : List α} {x : α} (h : x ∈ xs) :
    xs.head? = some x ∨ x ∈ xs.tail := by
  cases xs with
  | nil => exact absurd h List.not_mem_nil
  | cons y rest => exact (List.mem_cons.1 h).imp (fun heq => congrArg some heq.symm) id

/-- Where only one element adds something, what is put together is what that element adds. -/
theorem flatMap_eq_of_mem {xs : List α} {g : α → List β} {x : α} (hnodup : xs.Nodup) (hx : x ∈ xs)
    (h : ∀ y ∈ xs, y ≠ x → g y = []) : xs.flatMap g = g x := by
  obtain ⟨before, after, rfl⟩ := List.append_of_mem hx
  have hparts := List.nodup_append.1 hnodup
  have hbefore : ∀ y ∈ before, g y = [] := fun y hy =>
    h y (List.mem_append_left _ hy) (hparts.2.2 y hy x List.mem_cons_self)
  have hafter : ∀ y ∈ after, g y = [] := fun y hy =>
    h y (List.mem_append_right _ (List.mem_cons_of_mem x hy))
      fun heq => (List.nodup_cons.1 hparts.2.1).1 (heq ▸ hy)
  rw [List.flatMap_append, List.flatMap_cons, List.flatMap_eq_nil_iff.2 hbefore,
    List.flatMap_eq_nil_iff.2 hafter, List.nil_append, List.append_nil]

/-- Where no key stands twice, a value is found by its key. -/
theorem lookup_eq_some_iff_mem [BEq α] [LawfulBEq α] {xs : List (α × β)} {key : α} {value : β}
    (hdistinct : (xs.map Prod.fst).Nodup) :
    xs.lookup key = some value ↔ (key, value) ∈ xs := by
  constructor
  · intro h
    obtain ⟨before, after, rfl, -⟩ := List.lookup_eq_some_iff.1 h
    exact List.mem_append_right before List.mem_cons_self
  · intro h
    obtain ⟨before, after, rfl⟩ := List.append_of_mem h
    refine List.lookup_eq_some_iff.2 ⟨before, after, rfl, fun x hx => ?_⟩
    rw [List.map_append, List.nodup_append] at hdistinct
    simpa using (hdistinct.2.2 x.1 (List.mem_map_of_mem hx) key (by simp)).symm

/-! ## Steps that may fail -/

theorem bind_eq_ok {r : Except ε α} {next : α → Except ε β} {b : β} :
    r >>= next = .ok b ↔ ∃ a, r = .ok a ∧ next a = .ok b := by
  cases r <;> simp [bind, Except.bind]

theorem bind_eq_error {r : Except ε α} {next : α → Except ε β} {fault : ε} :
    r >>= next = .error fault ↔ r = .error fault ∨ ∃ a, r = .ok a ∧ next a = .error fault := by
  cases r <;> simp [bind, Except.bind]

/-- Results that are all there are what a function gives. -/
theorem mapM_eq_ok_map {f : α → Except ε β} {value : α → β} {xs : List α}
    (h : ∀ x ∈ xs, f x = .ok (value x)) : xs.mapM f = .ok (xs.map value) := by
  induction xs with
  | nil => rfl
  | cons x xs ih =>
    rw [List.mapM_cons, h x List.mem_cons_self, ih fun y hy => h y (List.mem_cons_of_mem _ hy)]
    rfl

theorem exists_mapM_eq_ok {f : α → Except ε β} {xs : List α}
    (h : ∀ x ∈ xs, ∃ b, f x = .ok b) : ∃ bs, xs.mapM f = .ok bs := by
  induction xs with
  | nil => exact ⟨[], rfl⟩
  | cons x xs ih =>
    obtain ⟨⟨b, hb⟩, hrest⟩ := List.forall_mem_cons.1 h
    obtain ⟨bs, hbs⟩ := ih hrest
    rw [List.mapM_cons, hb, hbs]
    exact ⟨b :: bs, rfl⟩

/-- Every result of a traversal is that of one of its steps. -/
theorem exists_of_mem_mapM {f : α → Except ε β} {xs : List α} {ys : List β}
    (h : xs.mapM f = .ok ys) {y : β} (hy : y ∈ ys) : ∃ x ∈ xs, f x = .ok y := by
  induction xs generalizing ys with
  | nil =>
    cases h
    cases hy
  | cons x xs ih =>
    rw [List.mapM_cons] at h
    cases hx : f x with
    | error fault =>
      rw [hx] at h
      cases h
    | ok b =>
      rw [hx] at h
      cases hxs : xs.mapM f with
      | error fault =>
        rw [hxs] at h
        cases h
      | ok bs =>
        rw [hxs] at h
        cases h
        rcases List.mem_cons.1 hy with rfl | hy
        · exact ⟨x, List.mem_cons_self, hx⟩
        · obtain ⟨z, hz, heq⟩ := ih hxs hy
          exact ⟨z, List.mem_cons_of_mem x hz, heq⟩

/-- A traversal fails at its first step that does. -/
theorem mapM_eq_error {f : α → Except ε β} {xs : List α} {fault : ε} :
    xs.mapM f = .error fault ↔
      ∃ before x after, xs = before ++ x :: after ∧ (∀ y ∈ before, ∃ b, f y = .ok b) ∧
        f x = .error fault := by
  induction xs with
  | nil => simp [pure, Except.pure]
  | cons x xs ih =>
    rw [List.mapM_cons, bind_eq_error]
    constructor
    · rintro (hx | ⟨b, hb, hrest⟩)
      · exact ⟨[], x, xs, rfl, by simp, hx⟩
      · obtain hrest | ⟨_, _, hok⟩ := bind_eq_error.1 hrest
        · obtain ⟨before, y, after, rfl, hbefore, hy⟩ := ih.1 hrest
          exact ⟨x :: before, y, after, rfl, List.forall_mem_cons.2 ⟨⟨b, hb⟩, hbefore⟩, hy⟩
        · cases hok
    · rintro ⟨before, y, after, hxs, hbefore, hy⟩
      cases before with
      | nil =>
        cases hxs
        exact .inl hy
      | cons x' before =>
        cases hxs
        obtain ⟨⟨b, hb⟩, hbefore⟩ := List.forall_mem_cons.1 hbefore
        exact .inr ⟨b, hb, bind_eq_error.2 (.inl (ih.2 ⟨before, y, after, rfl, hbefore, hy⟩))⟩

/-! ## Sorting -/

/-- Elements that are equal for the order are a sorted part of the list, so sorting keeps them in
order; and as it keeps their number, they are all there is. -/
theorem filter_mergeSort {le : α → α → Bool}
    (htrans : ∀ a b c, le a b = true → le b c = true → le a c = true)
    (htotal : ∀ a b, (le a b || le b a) = true) {same : α → Bool}
    (hsame : ∀ a b, same a = true → same b = true → le a b = true) (xs : List α) :
    (xs.mergeSort le).filter same = xs.filter same := by
  have hsorted : (xs.filter same).Pairwise fun a b => le a b = true := by
    refine List.pairwise_iff_forall_sublist.2 fun {a b} hab => ?_
    have ha := (List.mem_filter.1 (hab.subset List.mem_cons_self)).2
    have hb := (List.mem_filter.1 (hab.subset (by simp : b ∈ [a, b]))).2
    exact hsame a b ha hb
  have hsub := List.sublist_mergeSort htrans htotal hsorted List.filter_sublist
  have hfiltered := hsub.filter same
  rw [List.filter_filter] at hfiltered
  simp only [Bool.and_self] at hfiltered
  refine (hfiltered.eq_of_length ?_).symm
  exact (((List.mergeSort_perm xs le).filter same).length_eq).symm

end CodeCatalog
