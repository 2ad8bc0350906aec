import Mathlib.Data.List.Chain
import CodeCatalog.Extraction
import CodeCatalog.Proofs.Text.Trim
set_option autoImplicit false

/-!
# The documentation above a node

Documentation is looked for upwards through the named siblings before a node, as far as these are
attributes, decorators, and comments without a blank line between them and what stands below.  In
this reach it consists of the documentation comments from the nearest one up to the first ordinary
comment above that, and it starts on the line of the topmost of them.
-/

namespace CodeCatalog

/-- No style holds an empty text for documentation. -/
theorem DocStyle.isDoc_nil (style : DocStyle) : style.isDoc [] = false := by
  cases style <;> decide

/-- What starts a list up to an element ends with the head of that, or goes on in the tail. -/
theorem exists_prefix_cons_iff {α : Type} {c n : α} {ns : List α} {P : List α → Prop} :
    (∃ nearer, nearer ++ [c] <+: n :: ns ∧ P nearer) ↔
      (c = n ∧ P []) ∨ ∃ nearer, nearer ++ [c] <+: ns ∧ P (n :: nearer) := by
  constructor
  · rintro ⟨nearer, hprefix, hp⟩
    cases nearer with
    | nil => exact .inl ⟨(List.cons_prefix_cons.1 hprefix).1, hp⟩
    | cons m nearer =>
      obtain ⟨rfl, hrest⟩ := List.cons_prefix_cons.1 hprefix
      exact .inr ⟨nearer, hrest, hp⟩
  · rintro (⟨rfl, hp⟩ | ⟨nearer, hprefix, hp⟩)
    · exact ⟨[], List.cons_prefix_cons.2 ⟨rfl, List.nil_prefix⟩, hp⟩
    · exact ⟨n :: nearer, List.cons_prefix_cons.2 ⟨rfl, hprefix⟩, hp⟩

namespace SourceFile

variable {f : SourceFile} {below n c : Node} {above nodes : List Node} {parts : List Text}
  {line : Nat}

/-! ## Comments -/

/-- An attribute or a decorator. -/
def isAttribute (f : SourceFile) (n : Node) : Bool := f.grammar.transparentTypes.contains n.type

/-- A comment. -/
def isComment (f : SourceFile) (n : Node) : Bool :=
  !f.isAttribute n && f.grammar.commentTypes.contains n.type

/-- The text of a comment without the white space around it. -/
def commentText (f : SourceFile) (n : Node) : Text := (f.text n).trim

/-- A comment that is documentation. -/
def isDocComment (f : SourceFile) (n : Node) : Bool :=
  f.isComment n && f.grammar.docStyle.isDoc (f.commentText n)

theorem isComment_of_isDocComment (h : f.isDocComment n = true) : f.isComment n = true :=
  (Bool.and_eq_true_iff.1 h).1

theorem not_isComment_of_isAttribute (h : f.isAttribute n = true) : f.isComment n = false := by
  rw [isComment, h]
  rfl

theorem commentText_ne_nil (h : f.isDocComment n = true) : f.commentText n ≠ [] := by
  intro hnil
  rw [isDocComment, hnil, DocStyle.isDoc_nil, Bool.and_false] at h
  cases h

/-- The texts of documentation comments need no trimming when they are joined. -/
theorem trim_joinLines_commentText {docs : List Node}
    (h : ∀ n ∈ docs, f.isDocComment n = true) :
    (Text.joinLines (docs.map f.commentText)).trim = Text.joinLines (docs.map f.commentText) := by
  refine (Text.isTrimmed_joinLines fun u hu => ?_).trimWhile_eq
  obtain ⟨n, hn, rfl⟩ := List.mem_map.1 hu
  exact ⟨Text.isTrimmed_trimWhile _ _, commentText_ne_nil (h n hn)⟩

/-! ## The reach -/

/-- Documentation is looked for past a node above another one: past an attribute or a decorator,
and past a comment with no blank line between the two. -/
def Attached (f : SourceFile) (below n : Node) : Prop :=
  f.isAttribute n = true ∨ (f.isComment n = true ∧ below.startRow f.source ≤ n.endLine f.source)

instance (f : SourceFile) (below n : Node) : Decidable (f.Attached below n) :=
  inferInstanceAs (Decidable (_ ∨ _))

/-- The nodes that documentation is looked for past, of those above a node, the nearest first. -/
def reach (f : SourceFile) (below : Node) : List Node → List Node
  | [] => []
  | n :: above => if f.Attached below n then n :: f.reach n above else []

/-- The longest run of nodes above a node each of which documentation is looked for past. -/
structure IsReach (f : SourceFile) (below : Node) (above reach : List Node) : Prop where
  isPrefix : reach <+: above
  attached : (below :: reach).IsChain f.Attached
  longest : ∀ other, other <+: above → (below :: other).IsChain f.Attached → other <+: reach

theorem reach_cons_of_attached (h : f.Attached below n) :
    f.reach below (n :: above) = n :: f.reach n above := if_pos h

theorem reach_cons_of_not_attached (h : ¬ f.Attached below n) :
    f.reach below (n :: above) = [] := if_neg h

theorem isReach_reach (f : SourceFile) (below : Node) (above : List Node) :
    f.IsReach below above (f.reach below above) := by
  induction above generalizing below with
  | nil => exact ⟨List.prefix_rfl, .singleton _, fun _ hother _ => hother⟩
  | cons n above ih =>
    by_cases h : f.Attached below n
    · obtain ⟨isPrefix, attached, longest⟩ := ih n
      rw [reach_cons_of_attached h]
      refine ⟨List.cons_prefix_cons.2 ⟨rfl, isPrefix⟩, .cons_cons h attached, ?_⟩
      intro other hother hchain
      cases other with
      | nil => exact List.nil_prefix
      | cons m other =>
        obtain ⟨rfl, hrest⟩ := List.cons_prefix_cons.1 hother
        exact List.cons_prefix_cons.2
          ⟨rfl, longest other hrest (List.isChain_cons_cons.1 hchain).2⟩
    · rw [reach_cons_of_not_attached h]
      refine ⟨List.nil_prefix, .singleton _, fun other hother hchain => ?_⟩
      cases other with
      | nil => exact List.prefix_rfl
      | cons m other =>
        obtain ⟨rfl, -⟩ := List.cons_prefix_cons.1 hother
        exact absurd (List.isChain_cons_cons.1 hchain).1 h

theorem prefix_reach_iff {nearer : List Node} :
    nearer <+: f.reach below above ↔
      nearer <+: above ∧ (below :: nearer).IsChain f.Attached := by
  obtain ⟨isPrefix, attached, longest⟩ := f.isReach_reach below above
  refine ⟨fun h => ⟨h.trans isPrefix, ?_⟩, fun h => longest nearer h.1 h.2⟩
  exact attached.prefix (List.cons_prefix_cons.2 ⟨rfl, h⟩)

/-- The reach consists of comments, attributes and decorators. -/
theorem isMarginal_of_mem_reach (h : n ∈ f.reach below above) :
    f.grammar.isMarginal n.type = true := by
  induction above generalizing below with
  | nil => exact absurd h List.not_mem_nil
  | cons m above ih =>
    by_cases hattached : f.Attached below m
    · rw [reach_cons_of_attached hattached] at h
      rcases List.mem_cons.1 h with rfl | h
      · rw [Grammar.isMarginal, Bool.or_eq_true]
        exact hattached.imp_right fun hcomment => (Bool.and_eq_true_iff.1 hcomment.1).2
      · exact ih h
    · rw [reach_cons_of_not_attached hattached] at h
      exact absurd h List.not_mem_nil

/-! ## The run of documentation -/

/-- The documentation comments from the first of a list up to the first ordinary comment after
it. -/
def docRun (f : SourceFile) (nodes : List Node) : List Node :=
  ((nodes.filter f.isComment).dropWhile fun n => !f.isDocComment n).takeWhile f.isDocComment

/-- The documentation comments of a list up to its first ordinary comment. -/
def leadingDocs (f : SourceFile) (nodes : List Node) : List Node :=
  (nodes.filter f.isComment).takeWhile f.isDocComment

theorem isDocComment_of_mem_docRun (h : n ∈ f.docRun nodes) : f.isDocComment n = true :=
  List.mem_takeWhile_imp h

theorem docRun_nil : f.docRun [] = [] := rfl

theorem leadingDocs_nil : f.leadingDocs [] = [] := rfl

theorem docRun_cons_of_not_isComment (h : f.isComment n = false) :
    f.docRun (n :: nodes) = f.docRun nodes := by
  rw [docRun, List.filter_cons_of_neg (by simp [h]), ← docRun]

theorem leadingDocs_cons_of_not_isComment (h : f.isComment n = false) :
    f.leadingDocs (n :: nodes) = f.leadingDocs nodes := by
  rw [leadingDocs, List.filter_cons_of_neg (by simp [h]), ← leadingDocs]

theorem docRun_cons_of_isDocComment (h : f.isDocComment n = true) :
    f.docRun (n :: nodes) = n :: f.leadingDocs nodes := by
  rw [docRun, List.filter_cons_of_pos (isComment_of_isDocComment h),
    List.dropWhile_cons_of_neg (by simp [h]), List.takeWhile_cons_of_pos h, ← leadingDocs]

theorem leadingDocs_cons_of_isDocComment (h : f.isDocComment n = true) :
    f.leadingDocs (n :: nodes) = n :: f.leadingDocs nodes := by
  rw [leadingDocs, List.filter_cons_of_pos (isComment_of_isDocComment h),
    List.takeWhile_cons_of_pos h, ← leadingDocs]

theorem docRun_cons_of_not_isDocComment (h : f.isDocComment n = false) :
    f.docRun (n :: nodes) = f.docRun nodes := by
  by_cases hcomment : f.isComment n = true
  · rw [docRun, List.filter_cons_of_pos hcomment, List.dropWhile_cons_of_pos (by simp [h]),
      ← docRun]
  · exact docRun_cons_of_not_isComment (Bool.eq_false_iff.2 hcomment)

theorem leadingDocs_cons_of_not_isDocComment (hcomment : f.isComment n = true)
    (h : f.isDocComment n = false) : f.leadingDocs (n :: nodes) = [] := by
  rw [leadingDocs, List.filter_cons_of_pos hcomment, List.takeWhile_cons_of_neg (by simp [h])]

/-- There is a run exactly if there is a documentation comment. -/
theorem docRun_eq_nil_iff : f.docRun nodes = [] ↔ ∀ n ∈ nodes, f.isDocComment n = false := by
  induction nodes with
  | nil => simp [docRun_nil]
  | cons n nodes ih =>
    rw [List.forall_mem_cons]
    cases hdoc : f.isDocComment n with
    | true => simp [docRun_cons_of_isDocComment hdoc]
    | false => simp [docRun_cons_of_not_isDocComment hdoc, ih]

/-! ### Members of the run

A member is told by what stands before it. -/

theorem mem_leadingDocs_iff :
    c ∈ f.leadingDocs nodes ↔ f.isDocComment c = true ∧ ∃ nearer, nearer ++ [c] <+: nodes ∧
      ∀ n ∈ nearer, f.isComment n = true → f.isDocComment n = true := by
  induction nodes with
  | nil => simp [leadingDocs_nil]
  | cons n nodes ih =>
    rw [exists_prefix_cons_iff]
    cases hdoc : f.isDocComment n with
    | true =>
      rw [leadingDocs_cons_of_isDocComment hdoc, List.mem_cons, ih]
      constructor
      · rintro (rfl | ⟨hc, hrest⟩)
        · exact ⟨hdoc, .inl ⟨rfl, by simp⟩⟩
        · exact ⟨hc, .inr (by simpa [hdoc] using hrest)⟩
      · rintro ⟨hc, ⟨rfl, -⟩ | hrest⟩
        · exact .inl rfl
        · exact .inr ⟨hc, by simpa [hdoc] using hrest⟩
    | false =>
      have hne : f.isDocComment c = true → c ≠ n := by
        rintro hc rfl
        rw [hdoc] at hc
        cases hc
      cases hcomment : f.isComment n with
      | true =>
        rw [leadingDocs_cons_of_not_isDocComment hcomment hdoc]
        simpa [hdoc, hcomment] using hne
      | false =>
        rw [leadingDocs_cons_of_not_isComment hcomment, ih]
        refine and_congr_right fun hc => ?_
        simp [hne hc, hcomment]

/-- A documentation comment is in the run if no ordinary comment stands between it and a nearer
documentation comment. -/
theorem mem_docRun_iff :
    c ∈ f.docRun nodes ↔ f.isDocComment c = true ∧ ∃ nearer, nearer ++ [c] <+: nodes ∧
      nearer.Pairwise fun d n =>
        f.isDocComment d = true → f.isComment n = true → f.isDocComment n = true := by
  induction nodes with
  | nil => simp [docRun_nil]
  | cons n nodes ih =>
    rw [exists_prefix_cons_iff]
    cases hdoc : f.isDocComment n with
    | true =>
      rw [docRun_cons_of_isDocComment hdoc, List.mem_cons, mem_leadingDocs_iff]
      constructor
      · rintro (rfl | ⟨hc, nearer, hprefix, hdocs⟩)
        · exact ⟨hdoc, .inl ⟨rfl, .nil⟩⟩
        · refine ⟨hc, .inr ⟨nearer, hprefix, List.pairwise_cons.2 ⟨fun m hm _ => hdocs m hm, ?_⟩⟩⟩
          exact List.pairwise_of_forall_mem_list fun _ _ m hm _ => hdocs m hm
      · rintro ⟨hc, ⟨rfl, -⟩ | ⟨nearer, hprefix, hunbroken⟩⟩
        · exact .inl rfl
        · have hdocs := (List.pairwise_cons.1 hunbroken).1
          exact .inr ⟨hc, nearer, hprefix, fun m hm => hdocs m hm hdoc⟩
    | false =>
      rw [docRun_cons_of_not_isDocComment hdoc, ih]
      refine and_congr_right fun hc => ?_
      have hne : c ≠ n := by
        rintro rfl
        rw [hdoc] at hc
        cases hc
      simp [hne, hdoc]

/-! ## Looking upwards

One step looks at the nearest node above: it ends the search, it is passed over, or its text joins
the documentation. -/

theorem docsFrom_of_isAttribute (h : f.isAttribute n = true) (row : Nat) :
    f.docsFrom row parts line (n :: above)
      = f.docsFrom (n.startRow f.source) parts line above := by
  rw [isAttribute] at h
  rw [docsFrom, if_pos h]

/-- Whether a comment with no blank line below it is documentation counts, and whether there is
documentation below it already. -/
theorem docsFrom_of_isComment (hcomment : f.isComment n = true)
    (hline : below.startRow f.source ≤ n.endLine f.source) :
    f.docsFrom (below.startRow f.source) parts line (n :: above)
      = if f.isDocComment n then
          f.docsFrom (n.startRow f.source) (f.commentText n :: parts) (f.startLine n) above
        else if parts.isEmpty then f.docsFrom (n.startRow f.source) parts line above
        else (parts, line) := by
  have hdoc : f.isDocComment n = f.grammar.docStyle.isDoc (f.commentText n) := by
    rw [isDocComment, hcomment, Bool.true_and]
  obtain ⟨hattribute, htype⟩ := Bool.and_eq_true_iff.1 hcomment
  rw [isAttribute, Bool.not_eq_true'] at hattribute
  rw [hdoc, docsFrom, hattribute, htype, Bool.not_true, if_neg Bool.false_ne_true,
    if_neg Bool.false_ne_true, if_neg (not_lt.2 hline)]
  rfl

theorem docsFrom_of_not_attached (h : ¬ f.Attached below n) :
    f.docsFrom (below.startRow f.source) parts line (n :: above) = (parts, line) := by
  simp only [Attached, isComment, isAttribute, not_or, not_and, not_le, Bool.not_eq_true] at h
  obtain ⟨hattribute, hcomment⟩ := h
  rw [docsFrom, hattribute, if_neg Bool.false_ne_true]
  cases htype : f.grammar.commentTypes.contains n.type with
  | false => rfl
  | true =>
    have hline : n.endLine f.source < below.startRow f.source :=
      hcomment (by rw [hattribute, htype, Bool.not_false, Bool.true_and])
    rw [Bool.not_true, if_neg Bool.false_ne_true, if_pos hline]

/-- What the search takes up of a reach: the run of documentation, or the rest of it once there is
documentation. -/
def taken (f : SourceFile) (parts : List Text) (nodes : List Node) : List Node :=
  if parts.isEmpty then f.docRun nodes else f.leadingDocs nodes

theorem taken_nil : f.taken parts [] = [] := by
  unfold taken
  split
  · exact docRun_nil
  · exact leadingDocs_nil

theorem taken_of_ne_nil (hne : parts ≠ []) : f.taken parts nodes = f.leadingDocs nodes :=
  if_neg (by simpa using hne)

theorem taken_cons_of_not_isComment (h : f.isComment n = false) :
    f.taken parts (n :: nodes) = f.taken parts nodes := by
  rw [taken, taken, docRun_cons_of_not_isComment h, leadingDocs_cons_of_not_isComment h]

theorem taken_cons_of_isDocComment (h : f.isDocComment n = true) :
    f.taken parts (n :: nodes) = n :: f.taken (f.commentText n :: parts) nodes := by
  rw [taken, docRun_cons_of_isDocComment h, leadingDocs_cons_of_isDocComment h, ite_self,
    taken_of_ne_nil (List.cons_ne_nil _ _)]

/-- The search takes up its part of the reach. -/
theorem docsFrom_eq :
    f.docsFrom (below.startRow f.source) parts line above
      = ((f.taken parts (f.reach below above)).reverse.map f.commentText ++ parts,
          ((f.taken parts (f.reach below above)).getLast?.map f.startLine).getD line) := by
  induction above generalizing below parts line with
  | nil =>
    rw [reach, taken_nil]
    rfl
  | cons n above ih =>
    by_cases hattached : f.Attached below n
    · rw [reach_cons_of_attached hattached]
      rcases hattached with hattribute | ⟨hcomment, hline⟩
      · rw [docsFrom_of_isAttribute hattribute, ih,
          taken_cons_of_not_isComment (not_isComment_of_isAttribute hattribute)]
      · rw [docsFrom_of_isComment hcomment hline]
        cases hdoc : f.isDocComment n with
        | true =>
          rw [if_pos rfl, ih, taken_cons_of_isDocComment hdoc]
          simp [List.getLast?_cons]
        | false =>
          -- An ordinary comment ends the search only above documentation.
          cases parts with
          | nil =>
            rw [taken, docRun_cons_of_not_isDocComment hdoc]
            exact ih
          | cons part parts =>
            rw [taken_of_ne_nil (List.cons_ne_nil _ _),
              leadingDocs_cons_of_not_isDocComment hcomment hdoc]
            rfl
    · rw [docsFrom_of_not_attached hattached, reach_cons_of_not_attached hattached, taken_nil]
      rfl

/-! ## The documentation of a place -/

/-- The comments that are taken for the documentation of a place, the nearest first. -/
def docComments (f : SourceFile) (p : Place) : List Node := f.docRun (f.reach p.node p.before)

/-- What is taken is the documentation, and starts on the line of the topmost comment. -/
theorem docsAbove_eq (f : SourceFile) (p : Place) :
    f.docsAbove p =
      match (f.docComments p).getLast? with
      | none => (none, f.startLine p.node)
      | some topmost =>
        (some (Text.joinLines ((f.docComments p).reverse.map f.commentText)),
          f.startLine topmost) := by
  have htaken : f.docsFrom (p.node.startRow f.source) [] (f.startLine p.node) p.before
      = ((f.docComments p).reverse.map f.commentText,
          ((f.docComments p).getLast?.map f.startLine).getD (f.startLine p.node)) := by
    rw [docsFrom_eq, List.append_nil]
    rfl
  rw [docsAbove, htaken]
  have hdoc : ∀ n ∈ (f.docComments p).reverse, f.isDocComment n = true := by
    intro n hn
    exact isDocComment_of_mem_docRun (List.mem_reverse.1 hn)
  rw [trim_joinLines_commentText hdoc]
  by_cases hne : f.docComments p = []
  · rw [hne]
    rfl
  · have hjoin : Text.joinLines ((f.docComments p).reverse.map f.commentText) ≠ [] := by
      refine Text.joinLines_ne_nil (by simpa using hne) fun u hu => ?_
      obtain ⟨n, hn, rfl⟩ := List.mem_map.1 hu
      exact commentText_ne_nil (hdoc n hn)
    rw [Text.nonEmpty?, if_neg (by simpa using hjoin), List.getLast?_eq_some_getLast hne]
    rfl

/-- In the longest run of attributes, decorators, and comments without a blank line below them, the
documentation above a place consists of the trimmed texts of the documentation comments from the
nearest one up to the first ordinary comment above it, joined in the order of the source, and
starts on the line of the topmost of them.  Without a documentation comment in that run there is
none, and the line is that of the node. -/
theorem docsAbove_eq_of_reach (f : SourceFile) (p : Place) :
    ∃ reach, f.IsReach p.node p.before reach
      ∧ (f.docRun reach = [] ↔ ∀ n ∈ reach, f.isDocComment n = false)
      ∧ f.docsAbove p =
        match (f.docRun reach).getLast? with
        | none => (none, f.startLine p.node)
        | some topmost =>
          (some (Text.joinLines ((f.docRun reach).reverse.map f.commentText)),
            f.startLine topmost) := by
  exact ⟨f.reach p.node p.before, f.isReach_reach p.node p.before, docRun_eq_nil_iff,
    f.docsAbove_eq p⟩

end SourceFile

end CodeCatalog
