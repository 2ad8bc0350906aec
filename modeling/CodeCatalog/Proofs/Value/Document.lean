import CodeCatalog.Proofs.Value.Scalar
set_option autoImplicit false

/-!
# Reading documents back

A document that could be printed is read back as the value that was printed, if no key comes twice
in an object, each number is read back from its own text, and no value is nested too deep.  What is
printed never begins with white space, so an item is found behind the line break before it; what
follows an item ends a number.
-/

namespace CodeCatalog.Value

open Text

/-! ## The text of what is printed -/

namespace Printed

variable {a b : Printed} {t : Text}

@[simp] theorem text_piece : (piece t).text = .ok t :=
  congrArg Except.ok (List.append_nil t)

@[simp] theorem text_attempt {r : Except DataFault Text} : (attempt r).text = r := by
  cases r with
  | ok t => exact text_piece
  | error f => rfl

/-- A whole consists of its parts. -/
theorem text_append_eq_ok :
    (a ++ b).text = .ok t ↔ ∃ ta tb, a.text = .ok ta ∧ b.text = .ok tb ∧ ta ++ tb = t := by
  obtain ⟨pieces, fault⟩ := a
  obtain ⟨pieces', fault'⟩ := b
  change (append _ _).text = .ok t ↔ _
  cases fault with
  | some f => simp [append, text]
  | none => cases fault' <;> simp [append, text]

end Printed

section

variable {level : Nat} {opening t : Text} {v : Value} {items : List Value} {key : Text}
  {members : List (Text × Value)}

/-- A list that is not empty is printed by its items. -/
theorem print_list_cons :
    print level (.list (v :: items)) =
      printItems (level + 1) ("[" ++ lineBreak (level + 1)) (v :: items) ++
        ⟨[lineBreak level, "]"], none⟩ := by
  simp [print]

/-- An object that is not empty is printed by its members. -/
theorem print_object_cons {m : Text × Value} :
    print level (.object (m :: members)) =
      .piece "\x7b" ++ printMembers (level + 1) (lineBreak (level + 1)) (m :: members) ++
        ⟨[lineBreak level, "\x7d"], none⟩ := by
  simp [print]

/-- What is written in one piece is printed as that piece. -/
theorem text_print_of_jsonScalar? {r : Except DataFault Text} (h : v.jsonScalar? = some r) :
    (print level v).text = r := by
  cases v with
  | list items => cases h
  | object members => cases h
  | foreign => cases h
  | _ =>
    cases h
    simp [print]

/-- The text of items is that of the first one and that of the others. -/
theorem text_printItems_cons :
    (printItems level opening (v :: items)).text = .ok t ↔
      ∃ tv tr, (print level v).text = .ok tv ∧
        (printItems level ("," ++ lineBreak level) items).text = .ok tr ∧
        opening ++ tv ++ tr = t := by
  rw [printItems, Printed.text_append_eq_ok]
  cases hv : v.jsonScalar? with
  | none =>
    simp only [Printed.text_append_eq_ok, Printed.text_piece, Except.ok.injEq]
    constructor
    · rintro ⟨_, tr, ⟨_, tv, rfl, htv, rfl⟩, htr, rfl⟩
      exact ⟨tv, tr, htv, htr, rfl⟩
    · rintro ⟨tv, tr, htv, htr, rfl⟩
      exact ⟨_, tr, ⟨opening, tv, rfl, htv, rfl⟩, htr, rfl⟩
  | some r =>
    rw [text_print_of_jsonScalar? hv]
    cases r with
    | error f => simp [Except.map]
    | ok tv => simp [Except.map]

/-- The text of a member whose value has a text. -/
def memberText (key tv : Text) : Text := jsonString key ++ (": " ++ tv)

/-- The text of members is that of the first one and that of the others. -/
theorem text_printMembers_cons :
    (printMembers level opening ((key, v) :: members)).text = .ok t ↔
      ∃ tv tr, (print level v).text = .ok tv ∧
        (printMembers level ("," ++ lineBreak level) members).text = .ok tr ∧
        opening ++ memberText key tv ++ tr = t := by
  rw [printMembers]
  simp only [Printed.text_append_eq_ok]
  constructor
  · rintro ⟨_, tr, ⟨_, tv, hkey, htv, rfl⟩, htr, rfl⟩
    cases hkey
    exact ⟨tv, tr, htv, htr, by simp [memberText]⟩
  · rintro ⟨tv, tr, htv, htr, rfl⟩
    exact ⟨_, tr, ⟨_, tv, rfl, htv, rfl⟩, htr, by simp [memberText]⟩

end

/-! ## Where a value begins -/

section

variable {steps depth level : Nat} {cs rest : List Char} {r : Value × List Char}

theorem skipBlanks_comma : skipBlanks (',' :: cs) = ',' :: cs := rfl

theorem skipBlanks_colon : skipBlanks (':' :: cs) = ':' :: cs := rfl

theorem chars_lineBreak : chars (lineBreak level) = '\n' :: List.replicate (2 * level) ' ' :=
  congrArg ('\n' :: ·) (List.filterMap_replicate_of_some rfl)

theorem skipBlanks_lineBreak : skipBlanks (chars (lineBreak level) ++ cs) = skipBlanks cs := by
  rw [chars_lineBreak]
  refine List.dropWhile_append_of_pos fun c hc => ?_
  rcases List.mem_cons.1 hc with rfl | hc
  · rfl
  · rw [List.eq_of_mem_replicate hc]
    rfl

/-- A line break ends a value. -/
theorem ends_lineBreak : Ends (chars (lineBreak level) ++ cs) := by
  rw [chars_lineBreak]
  exact .newline _

/-- A text begins with neither white space nor the end of a list or an object. -/
def Begins (cs : List Char) : Prop :=
  ∃ c more, cs = c :: more ∧ c ∉ [' ', '\n', '\r', '\t', ']', '\x7d']

theorem Begins.skipBlanks (h : Begins cs) : skipBlanks cs = cs := by
  obtain ⟨c, more, rfl, hc⟩ := h
  simp only [List.mem_cons, List.not_mem_nil, not_or, or_false] at hc
  simp [Value.skipBlanks, hc]

/-- What can be read as a value begins like one. -/
theorem begins_of_readValue (h : readValue steps depth cs = .ok r) : Begins cs := by
  cases steps with
  | zero => cases h
  | succ steps =>
    cases cs with
    | nil => cases h
    | cons c more =>
      refine ⟨c, more, rfl, fun hc => ?_⟩
      simp only [List.mem_cons, List.not_mem_nil, or_false] at hc
      rcases hc with rfl | rfl | rfl | rfl | rfl | rfl <;> cases h

/-- Behind the opening bracket a list is read by its items, unless there are none. -/
theorem readValue_bracket (h : Begins (skipBlanks cs)) :
    readValue (steps + 1) (depth + 1) ('[' :: cs) = readItems steps depth [] (skipBlanks cs) := by
  obtain ⟨c, more, hcs, hc⟩ := h
  have hend : c ≠ ']' := by
    rintro rfl
    simp at hc
  simp [readValue, hcs, hend]

/-- Behind the opening brace an object is read by its members, unless there are none. -/
theorem readValue_brace (h : Begins (skipBlanks cs)) :
    readValue (steps + 1) (depth + 1) ('\x7b' :: cs) =
      readMembers steps depth [] (skipBlanks cs) := by
  obtain ⟨c, more, hcs, hc⟩ := h
  have hend : c ≠ '\x7d' := by
    rintro rfl
    simp at hc
  simp [readValue, hcs, hend]

theorem readValue_scalar (h : readScalar? cs = some r) :
    readValue (steps + 1) depth cs = .ok r := by
  unfold readValue
  split
  case h_6 => rw [h]
  all_goals cases h

end

/-! ## Values -/

section

variable {steps depth level outer : Nat} {v : Value} {t tv tr key : Text} {done items : List Value}
  {members : List (Text × Value)} {rest : List Char}

/-- The value is read back from its text wherever that stands in a document. -/
def IsReadBack (depth : Nat) (v : Value) : Prop :=
  ∀ level t, (print level v).text = .ok t → t.isScalar = true →
    ∀ steps rest, Ends rest → (chars t).length ≤ steps →
      readValue steps depth (chars t ++ rest) = .ok (v, rest)

theorem IsReadBack.begins (h : IsReadBack depth v) (ht : (print level v).text = .ok t)
    (hscalar : t.isScalar = true) (hrest : Ends rest) : Begins (chars t ++ rest) :=
  begins_of_readValue (h level t ht hscalar _ rest hrest (Nat.le_refl _))

/-- What is one piece is read back if it is read back from that piece. -/
theorem isReadBack_of_readScalar? {r : Except DataFault Text} (hv : v.jsonScalar? = some r)
    (h : ∀ t, r = .ok t → readScalar? (chars t) = some (v, [])) : IsReadBack depth v := by
  intro level t ht _ steps rest hrest hsteps
  have hread := h t ((text_print_of_jsonScalar? hv).symm.trans ht)
  cases steps with
  | zero =>
    rw [List.length_eq_zero_iff.1 (Nat.le_zero.1 hsteps)] at hread
    cases hread
  | succ steps => exact readValue_scalar (readScalar?_append hread hrest)

/-- A string is found behind its opening quote. -/
theorem readString?_jsonString (hscalar : (jsonString t).isScalar = true)
    (hsteps : (chars (jsonString t)).length ≤ steps + 1) :
    ∃ cs, chars (jsonString t) ++ rest = '"' :: cs ∧ readString? steps [] cs = some (t, rest) := by
  have ht := isScalar_of_isScalar_jsonString hscalar
  have hlength := length_le_length_flatMap_jsonGlyph ht
  unfold jsonString at hsteps
  simp only [chars_append, List.length_append, chars_ofString] at hsteps
  refine ⟨chars (t.flatMap jsonGlyph) ++ '"' :: rest, ?_, ?_⟩
  · simp [jsonString]
  · refine readString?_flatMap_jsonGlyph ht ?_
    simp at hsteps
    omega

theorem isReadBack_text : IsReadBack depth (.text t) := by
  intro level text ht hscalar steps rest _ hsteps
  cases (text_print_of_jsonScalar? rfl).symm.trans ht
  cases steps with
  | zero => cases hsteps
  | succ steps =>
    obtain ⟨cs, hcs, hread⟩ := readString?_jsonString hscalar hsteps
    rw [hcs]
    simp only [readValue, hread]

/-- The last item is read back up to the end of the list. -/
theorem readItems_last (hread : IsReadBack depth v) (hv : (print level v).text = .ok tv)
    (htv : tv.isScalar = true) (hsteps : (chars tv).length ≤ steps) :
    readItems (steps + 1) depth done (chars tv ++ (chars (lineBreak outer) ++ ']' :: rest)) =
      .ok (.list (v :: done).reverse, rest) := by
  have hends : Ends (chars (lineBreak outer) ++ ']' :: rest) := ends_lineBreak
  have hend : skipBlanks (chars (lineBreak outer) ++ ']' :: rest) = ']' :: rest :=
    skipBlanks_lineBreak
  simp only [readItems, hread level tv hv htv steps _ hends hsteps, hend]

/-- Any other item is read back up to the item behind it. -/
theorem readItems_next {more : List Char} (hread : IsReadBack depth v)
    (hv : (print level v).text = .ok tv) (htv : tv.isScalar = true)
    (hsteps : (chars tv).length ≤ steps) :
    readItems (steps + 1) depth done (chars tv ++ ',' :: (chars (lineBreak level) ++ more)) =
      readItems steps depth (v :: done) (skipBlanks more) := by
  simp only [readItems, hread level tv hv htv steps _ (.comma _) hsteps, skipBlanks_comma,
    skipBlanks_lineBreak]

/-- Behind what opens them and the line break, items are read back up to the end of their list. -/
theorem exists_behind_of_printItems (outer : Nat) (rest : List Char) {opening : Text}
    (hitems : ∀ w ∈ v :: items, IsReadBack depth w)
    (ht : (printItems level (opening ++ lineBreak level) (v :: items)).text = .ok t)
    (hscalar : t.isScalar = true) :
    ∃ behind, chars t ++ (chars (lineBreak outer) ++ ']' :: rest) =
        chars opening ++ (chars (lineBreak level) ++ behind) ∧ Begins behind ∧
      ∀ steps done, (chars t).length ≤ steps + (chars opening).length →
        readItems steps depth done behind = .ok (.list (done.reverse ++ v :: items), rest) := by
  induction items generalizing v opening t with
  | nil =>
    obtain ⟨tv, tr, hv, hr, rfl⟩ := text_printItems_cons.1 ht
    obtain rfl : [] = tr := Except.ok.inj hr
    simp only [isScalar_append, Bool.and_eq_true] at hscalar
    have hread := hitems v (List.mem_cons_self ..)
    refine ⟨chars tv ++ (chars (lineBreak outer) ++ ']' :: rest), by simp,
      hread.begins hv hscalar.1.2 ends_lineBreak, fun steps done hsteps => ?_⟩
    have hlength : (chars tv).length < steps := by
      simp [chars_lineBreak] at hsteps
      omega
    obtain ⟨steps, rfl⟩ : ∃ n, steps = n + 1 := ⟨steps - 1, by omega⟩
    rw [readItems_last hread hv hscalar.1.2 (by omega), List.reverse_cons]
  | cons w items ih =>
    obtain ⟨tv, tr, hv, hr, rfl⟩ := text_printItems_cons.1 ht
    simp only [isScalar_append, Bool.and_eq_true] at hscalar
    obtain ⟨⟨-, htv⟩, htr⟩ := hscalar
    have hread := hitems v (List.mem_cons_self ..)
    -- The items that are left open with a comma.
    obtain ⟨behind, hcut, hbegins, hleft⟩ :=
      ih (fun x hx => hitems x (List.mem_cons_of_mem _ hx)) hr htr
    have hcut : chars tr ++ (chars (lineBreak outer) ++ ']' :: rest) =
        ',' :: (chars (lineBreak level) ++ behind) := hcut
    refine ⟨chars tv ++ ',' :: (chars (lineBreak level) ++ behind), by simp [← hcut],
      hread.begins hv htv (.comma _), fun steps done hsteps => ?_⟩
    have hlength : (chars tv).length + (chars tr).length < steps := by
      simp [chars_lineBreak] at hsteps
      omega
    obtain ⟨steps, rfl⟩ : ∃ n, steps = n + 1 := ⟨steps - 1, by omega⟩
    rw [readItems_next hread hv htv (by omega), hbegins.skipBlanks, hleft _ _ (by omega),
      List.reverse_cons, List.append_assoc]
    rfl

/-- A member is read back from its key, the colon and its value. -/
theorem exists_of_memberText {more : List Char} (hread : IsReadBack depth v)
    (hv : (print level v).text = .ok tv) (hscalar : (memberText key tv).isScalar = true)
    (hmore : Ends more) (hsteps : (chars (memberText key tv)).length ≤ steps) :
    ∃ cs behind, chars (memberText key tv) ++ more = '"' :: cs ∧
      readString? steps [] cs = some (key, ':' :: behind) ∧
      readValue steps depth (skipBlanks behind) = .ok (v, more) := by
  unfold memberText at hscalar hsteps ⊢
  simp only [isScalar_append, Bool.and_eq_true] at hscalar
  obtain ⟨hkey, -, htv⟩ := hscalar
  have hlength : (chars (jsonString key)).length + ((chars tv).length + 1 + 1) ≤ steps := by
    simpa using hsteps
  obtain ⟨cs, hcs, hkeyRead⟩ : ∃ cs,
      chars (jsonString key) ++ ':' :: ' ' :: (chars tv ++ more) = '"' :: cs ∧
        readString? steps [] cs = some (key, ':' :: ' ' :: (chars tv ++ more)) :=
    readString?_jsonString hkey (by omega)
  have hvalue : skipBlanks (' ' :: (chars tv ++ more)) = chars tv ++ more :=
    (hread.begins hv htv hmore).skipBlanks
  refine ⟨cs, ' ' :: (chars tv ++ more), ?_, hkeyRead, ?_⟩
  · rw [← hcs]
    simp
  · rw [hvalue]
    exact hread level tv hv htv steps more hmore (by omega)

/-- A member begins with the quote of its key. -/
theorem begins_memberText {more : List Char} : Begins (chars (memberText key tv) ++ more) :=
  ⟨'"', _, rfl, by decide⟩

/-- The last member is read back up to the end of the object. -/
theorem readMembers_last {done : List (Text × Value)} (hread : IsReadBack depth v)
    (hv : (print level v).text = .ok tv) (hscalar : (memberText key tv).isScalar = true)
    (hsteps : (chars (memberText key tv)).length ≤ steps) :
    readMembers (steps + 1) depth done
        (chars (memberText key tv) ++ (chars (lineBreak outer) ++ '\x7d' :: rest)) =
      .ok (ofMembers ((key, v) :: done).reverse, rest) := by
  have hends : Ends (chars (lineBreak outer) ++ '\x7d' :: rest) := ends_lineBreak
  obtain ⟨cs, behind, hcs, hkey, hvalue⟩ := exists_of_memberText hread hv hscalar hends hsteps
  have hend : skipBlanks (chars (lineBreak outer) ++ '\x7d' :: rest) = '\x7d' :: rest :=
    skipBlanks_lineBreak
  simp only [hcs, readMembers, hkey, skipBlanks_colon, hvalue, hend]

/-- Any other member is read back up to the member behind it. -/
theorem readMembers_next {done : List (Text × Value)} {more : List Char}
    (hread : IsReadBack depth v) (hv : (print level v).text = .ok tv)
    (hscalar : (memberText key tv).isScalar = true)
    (hsteps : (chars (memberText key tv)).length ≤ steps) :
    readMembers (steps + 1) depth done
        (chars (memberText key tv) ++ ',' :: (chars (lineBreak level) ++ more)) =
      readMembers steps depth ((key, v) :: done) (skipBlanks more) := by
  obtain ⟨cs, behind, hcs, hkey, hvalue⟩ :=
    exists_of_memberText hread hv hscalar (.comma (chars (lineBreak level) ++ more)) hsteps
  simp only [hcs, readMembers, hkey, skipBlanks_colon, hvalue, skipBlanks_comma,
    skipBlanks_lineBreak]

/-- Behind what opens them and the line break, members are read back up to the end of their
object. -/
theorem exists_behind_of_printMembers (outer : Nat) (rest : List Char) {opening : Text}
    (hmembers : ∀ m ∈ (key, v) :: members, IsReadBack depth m.2)
    (ht : (printMembers level (opening ++ lineBreak level) ((key, v) :: members)).text = .ok t)
    (hscalar : t.isScalar = true) :
    ∃ behind, chars t ++ (chars (lineBreak outer) ++ '\x7d' :: rest) =
        chars opening ++ (chars (lineBreak level) ++ behind) ∧ Begins behind ∧
      ∀ steps done, (chars t).length ≤ steps + (chars opening).length →
        readMembers steps depth done behind =
          .ok (ofMembers (done.reverse ++ (key, v) :: members), rest) := by
  induction members generalizing key v opening t with
  | nil =>
    obtain ⟨tv, tr, hv, hr, rfl⟩ := text_printMembers_cons.1 ht
    obtain rfl : [] = tr := Except.ok.inj hr
    simp only [isScalar_append, Bool.and_eq_true] at hscalar
    have hread := hmembers _ (List.mem_cons_self ..)
    refine ⟨chars (memberText key tv) ++ (chars (lineBreak outer) ++ '\x7d' :: rest), by simp,
      begins_memberText, fun steps done hsteps => ?_⟩
    have hlength : (chars (memberText key tv)).length < steps := by
      simp [chars_lineBreak] at hsteps
      omega
    obtain ⟨steps, rfl⟩ : ∃ n, steps = n + 1 := ⟨steps - 1, by omega⟩
    rw [readMembers_last hread hv hscalar.1.2 (by omega), List.reverse_cons]
  | cons m members ih =>
    obtain ⟨tv, tr, hv, hr, rfl⟩ := text_printMembers_cons.1 ht
    simp only [isScalar_append, Bool.and_eq_true] at hscalar
    obtain ⟨⟨-, hfirst⟩, htr⟩ := hscalar
    have hread := hmembers _ (List.mem_cons_self ..)
    -- The members that are left open with a comma.
    obtain ⟨behind, hcut, hbegins, hleft⟩ :=
      ih (fun x hx => hmembers x (List.mem_cons_of_mem _ hx)) hr htr
    have hcut : chars tr ++ (chars (lineBreak outer) ++ '\x7d' :: rest) =
        ',' :: (chars (lineBreak level) ++ behind) := hcut
    refine ⟨chars (memberText key tv) ++ ',' :: (chars (lineBreak level) ++ behind),
      by simp [← hcut], begins_memberText, fun steps done hsteps => ?_⟩
    have hlength : (chars (memberText key tv)).length + (chars tr).length < steps := by
      simp [chars_lineBreak] at hsteps
      omega
    obtain ⟨steps, rfl⟩ : ∃ n, steps = n + 1 := ⟨steps - 1, by omega⟩
    rw [readMembers_next hread hv hfirst (by omega), hbegins.skipBlanks, hleft _ _ (by omega),
      List.reverse_cons, List.append_assoc]
    rfl

end

/-! ## Documents -/

/-- The text of a number is read as that number. -/
def IsExact (x : Double) : Prop :=
  readScalar? (chars (Double.indexLayout.text x)) = some (.float x, [])

/-- A value is nested at most so deep, no key comes twice in an object of it, and its numbers are
read back from their texts. -/
inductive IsReadable : Nat → Value → Prop
  | null {depth : Nat} : IsReadable depth .null
  | bool {depth : Nat} (b : Bool) : IsReadable depth (.bool b)
  | int {depth : Nat} (i : Int) : IsReadable depth (.int i)
  | float {depth : Nat} {x : Double} (h : IsExact x) : IsReadable depth (.float x)
  | text {depth : Nat} (t : Text) : IsReadable depth (.text t)
  | list {depth : Nat} {items : List Value} (h : ∀ v ∈ items, IsReadable depth v) :
      IsReadable (depth + 1) (.list items)
  | object {depth : Nat} {members : List (Text × Value)} (hkeys : (members.map Prod.fst).Nodup)
      (h : ∀ m ∈ members, IsReadable depth m.2) : IsReadable (depth + 1) (.object members)

theorem put_of_notMem {key : Text} {v : Value} {known : List (Text × Value)}
    (h : key ∉ known.map Prod.fst) : put key v known = known ++ [(key, v)] := by
  induction known with
  | nil => rfl
  | cons m known ih =>
    rw [List.map_cons, List.mem_cons, not_or] at h
    rw [put, if_neg (Ne.symm h.1), ih h.2, List.cons_append]

theorem foldl_put_of_nodup {known members : List (Text × Value)}
    (h : ((known ++ members).map Prod.fst).Nodup) :
    members.foldl (fun known m => put m.1 m.2 known) known = known ++ members := by
  induction members generalizing known with
  | nil => exact (List.append_nil known).symm
  | cons m members ih =>
    have hm : m.1 ∉ known.map Prod.fst := by
      intro hm
      rw [List.map_append, List.nodup_append] at h
      exact h.2.2 _ hm _ (List.mem_map_of_mem (List.mem_cons_self ..)) rfl
    rw [List.foldl_cons, put_of_notMem hm, ih (by simpa using h), List.append_assoc]
    rfl

/-- Members of different keys are all kept. -/
theorem ofMembers_of_nodup {members : List (Text × Value)} (h : (members.map Prod.fst).Nodup) :
    ofMembers members = .object members :=
  congrArg object (foldl_put_of_nodup (by simpa using h))

variable {depth : Nat} {v : Value}

/-- A list is read back if its items are. -/
theorem isReadBack_list {items : List Value} (h : ∀ v ∈ items, IsReadBack depth v) :
    IsReadBack (depth + 1) (.list items) := by
  intro level t ht hscalar steps rest _ hsteps
  cases items with
  | nil =>
    obtain rfl : ("[]" : Text) = t := Except.ok.inj ht
    obtain ⟨steps, rfl⟩ : ∃ n, steps = n + 1 := ⟨steps - 1, by simp at hsteps; omega⟩
    simp [readValue, skipBlanks]
  | cons v items =>
    rw [print_list_cons, Printed.text_append_eq_ok] at ht
    obtain ⟨ti, _, hitems, hclosing, rfl⟩ := ht
    cases hclosing
    rw [isScalar_append, Bool.and_eq_true] at hscalar
    obtain ⟨behind, hcut, hbegins, hread⟩ :=
      exists_behind_of_printItems level rest h hitems hscalar.1
    have hcut : chars (ti ++ [lineBreak level, "]"].flatten) ++ rest =
        '[' :: (chars (lineBreak (level + 1)) ++ behind) := by
      refine Eq.trans ?_ hcut
      simp
    have hlength : (chars ti).length < steps := by
      simp at hsteps
      omega
    obtain ⟨steps, rfl⟩ : ∃ n, steps = n + 1 := ⟨steps - 1, by omega⟩
    have hskip : skipBlanks (chars (lineBreak (level + 1)) ++ behind) = behind := by
      rw [skipBlanks_lineBreak, hbegins.skipBlanks]
    rw [hcut, readValue_bracket (by rwa [hskip]), hskip]
    exact hread steps [] (by omega)

/-- An object is read back if its values are and no key comes twice. -/
theorem isReadBack_object {members : List (Text × Value)} (hkeys : (members.map Prod.fst).Nodup)
    (h : ∀ m ∈ members, IsReadBack depth m.2) : IsReadBack (depth + 1) (.object members) := by
  intro level t ht hscalar steps rest _ hsteps
  cases members with
  | nil =>
    obtain rfl : ("\x7b\x7d" : Text) = t := Except.ok.inj ht
    obtain ⟨steps, rfl⟩ : ∃ n, steps = n + 1 := ⟨steps - 1, by simp at hsteps; omega⟩
    simp [readValue, skipBlanks]
  | cons m members =>
    obtain ⟨key, v⟩ := m
    rw [print_object_cons] at ht
    simp only [Printed.text_append_eq_ok, Printed.text_piece] at ht
    obtain ⟨_, _, ⟨_, tm, hopening, hmembers, rfl⟩, hclosing, rfl⟩ := ht
    cases hopening
    cases hclosing
    simp only [isScalar_append, Bool.and_eq_true] at hscalar
    -- The brace is a piece of its own, so what opens the members is nothing.
    have hmembers : (printMembers (level + 1) ([] ++ lineBreak (level + 1))
        ((key, v) :: members)).text = .ok tm := hmembers
    obtain ⟨behind, hcut, hbegins, hread⟩ :=
      exists_behind_of_printMembers level rest h hmembers hscalar.1.2
    have hcut : chars ("\x7b" ++ tm ++ [lineBreak level, "\x7d"].flatten) ++ rest =
        '\x7b' :: (chars (lineBreak (level + 1)) ++ behind) := by
      refine Eq.trans ?_ (congrArg ('\x7b' :: ·) hcut)
      simp
    have hlength : (chars tm).length + 1 < steps := by
      simp at hsteps
      omega
    obtain ⟨steps, rfl⟩ : ∃ n, steps = n + 1 := ⟨steps - 1, by omega⟩
    have hskip : skipBlanks (chars (lineBreak (level + 1)) ++ behind) = behind := by
      rw [skipBlanks_lineBreak, hbegins.skipBlanks]
    rw [hcut, readValue_brace (by rwa [hskip]), hskip, hread steps [] (by simp; omega)]
    exact congrArg (fun v => Except.ok (v, rest)) (ofMembers_of_nodup hkeys)

/-- A value that is readable is read back. -/
theorem IsReadable.isReadBack (h : IsReadable depth v) : IsReadBack depth v := by
  induction h with
  | null =>
    refine isReadBack_of_readScalar? rfl ?_
    rintro _ ⟨⟩
    rfl
  | bool b =>
    refine isReadBack_of_readScalar? rfl ?_
    rintro _ ⟨⟩
    cases b <;> rfl
  | int i => exact isReadBack_of_readScalar? rfl fun _ => readScalar?_jsonInt
  | float h =>
    refine isReadBack_of_readScalar? rfl ?_
    rintro _ ⟨⟩
    exact h
  | text t => exact isReadBack_text
  | list h ih => exact isReadBack_list ih
  | object hkeys h ih => exact isReadBack_object hkeys ih

/-- A document that could be printed and holds no lone surrogate is read back. -/
theorem readWithin_print {t : Text} (h : IsReadable depth v) (ht : (print 0 v).text = .ok t)
    (hscalar : t.isScalar = true) : readWithin depth (chars t) = .ok v := by
  have hread := h.isReadBack 0 t ht hscalar
  have hvalue : readValue ((chars t).length + 1) depth (chars t) = .ok (v, []) := by
    have hread := hread ((chars t).length + 1) [] .nothing (Nat.le_succ _)
    rwa [List.append_nil] at hread
  rw [readWithin, (begins_of_readValue hvalue).skipBlanks, hvalue]
  rfl

end CodeCatalog.Value
