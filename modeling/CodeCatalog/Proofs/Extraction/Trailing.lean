import CodeCatalog.Grammar.Python
import CodeCatalog.Proofs.Extraction.Docs
import CodeCatalog.Proofs.Extraction.Row
import CodeCatalog.Proofs.Extraction.Visited
set_option autoImplicit false

/-!
# Comments on the line of another node

A comment is taken for documentation by what stands below it: nothing but comments, attributes and
decorators down to the node, and no blank line.  What stands in front of a comment is not looked
at, so a comment that stands at the end of a line behind another node is taken as well, and then
the documentation starts on the line on which that node ends.
-/

namespace CodeCatalog.SourceFile

variable {f : SourceFile} {root n c s : Node} {p : Place} {nearer above : List Node}

/-! ## Comments that are taken -/

/-- A comment is taken for documentation of a place past nearer nodes: these are comments,
attributes and decorators, no comment has a blank line below it, and no ordinary comment stands
between the comment and a nearer documentation comment. -/
structure Documents (f : SourceFile) (p : Place) (nearer : List Node) (c : Node) : Prop where
  isPrefix : nearer ++ [c] <+: p.before
  attached : (p.node :: (nearer ++ [c])).IsChain f.Attached
  isDoc : f.isDocComment c = true
  unbroken : nearer.Pairwise fun d n =>
    f.isDocComment d = true → f.isComment n = true → f.isDocComment n = true

theorem mem_docComments_iff : c ∈ f.docComments p ↔ ∃ nearer, f.Documents p nearer c := by
  rw [docComments, mem_docRun_iff]
  constructor
  · rintro ⟨hdoc, nearer, hprefix, hunbroken⟩
    obtain ⟨hbefore, hattached⟩ := prefix_reach_iff.1 hprefix
    exact ⟨nearer, hbefore, hattached, hdoc, hunbroken⟩
  · rintro ⟨nearer, hbefore, hattached, hdoc, hunbroken⟩
    exact ⟨hdoc, nearer, prefix_reach_iff.2 ⟨hbefore, hattached⟩, hunbroken⟩

/-! ## Comments on lines of their own -/

/-- A comment starts on a later line than that on which the nearest sibling before it ends that is
no comment. -/
def StandsAlone (f : SourceFile) (p : Place) (c : Node) : Prop :=
  ∀ nearer above, p.before = nearer ++ c :: above →
    ∀ s ∈ above.find? fun n => !f.isComment n, s.endLine f.source < f.startLine c

/-- A comment that is taken for documentation of a place starts on the line on which another node
ends, with nothing but comments between the two. -/
inductive TakesTrailing (f : SourceFile) (p : Place) : Prop
  | intro {nearer between farther : List Node} {c s : Node} (hdocuments : f.Documents p nearer c)
    (hbefore : p.before = nearer ++ c :: (between ++ s :: farther))
    (hbetween : ∀ n ∈ between, f.isComment n = true) (hs : f.isComment s = false)
    (hline : s.endLine f.source = f.startLine c)

theorem TakesTrailing.exists_not_standsAlone (h : f.TakesTrailing p) :
    ∃ c ∈ f.docComments p, ¬ f.StandsAlone p c := by
  obtain ⟨hdocuments, hbefore, hbetween, hs, hline⟩ := h
  refine ⟨_, mem_docComments_iff.2 ⟨_, hdocuments⟩, fun halone => ?_⟩
  refine absurd (halone _ _ hbefore _ ?_) (Nat.not_lt_of_le (Nat.le_of_eq hline.symm))
  exact List.find?_eq_some_iff_append.2 ⟨by rw [hs]; rfl, _, _, rfl, by simpa using hbetween⟩

/-- A documentation comment covers a byte. -/
theorem coversByte_of_isDocComment (h : f.isDocComment c = true) : c.CoversByte f.source := by
  refine Node.coversByte_of_text_ne_nil fun hnil => commentText_ne_nil h ?_
  rw [commentText, text, hnil]
  rfl

/-- What covers a byte stands only once among nodes one behind the other. -/
theorem notMem_of_pairwise (hpairwise : (nearer ++ c :: above).Pairwise fun m n => n.stop ≤ m.start)
    (hcovers : c.CoversByte f.source) : c ∉ nearer ∧ c ∉ above := by
  obtain ⟨-, habove, hnearer⟩ := List.pairwise_append.1 hpairwise
  have hlt := hcovers.1
  refine ⟨fun hc => ?_, fun hc => ?_⟩
  · have hstop := hnearer c hc c List.mem_cons_self
    omega
  · have hstop := (List.pairwise_cons.1 habove).1 c hc
    omega

section Ordered

variable (hordered : root.IsOrdered) (hp : p ∈ (Place.root root).preorder)

include hordered hp in
theorem pairwise_before_of_mem_preorder : p.before.Pairwise fun m n => n.stop ≤ m.start := by
  rcases Place.eq_or_mem_children_of_mem_preorder hp with rfl | ⟨q, hq, hpq⟩
  · exact .nil
  · exact Place.pairwise_before hordered (Place.node_mem_nodes_of_mem_preorder hq) hpq

include hordered hp in
/-- Unless a comment at the end of a line is taken, all that are taken stand on lines of their
own. -/
theorem standsAlone_of_not_takesTrailing (htrailing : ¬ f.TakesTrailing p)
    (hc : c ∈ f.docComments p) : f.StandsAlone p c := by
  intro nearer above hbefore s hs
  have hpairwise := pairwise_before_of_mem_preorder hordered hp
  obtain ⟨taken, hdocuments⟩ := mem_docComments_iff.1 hc
  obtain ⟨rest, hrest⟩ := hdocuments.isPrefix
  have hcovers := coversByte_of_isDocComment hdocuments.isDoc
  -- The comment is at the one position at which it was taken.
  have hsplit : nearer ++ c :: above = taken ++ c :: rest := by
    rw [← hbefore, ← hrest, List.append_assoc, List.singleton_append]
  rw [hbefore] at hpairwise
  obtain ⟨hnearer, habove⟩ := notMem_of_pairwise hpairwise hcovers
  obtain ⟨rfl, -, rfl⟩ := (List.append_cons_inj_of_notMem hnearer habove).1 hsplit
  obtain ⟨hcomment, between, farther, rfl, hbetween⟩ := List.find?_eq_some_iff_append.1 hs
  have hstop : s.stop ≤ c.start := by
    have hafter := (List.pairwise_append.1 hpairwise).2.1
    exact (List.pairwise_cons.1 hafter).1 s (List.mem_append_right _ List.mem_cons_self)
  refine Nat.lt_of_le_of_ne (Node.endLine_le_startLine hstop) fun hline => htrailing ?_
  exact .intro hdocuments hbefore (by simpa using hbetween) (by simpa using hcomment) hline

end Ordered

/-- Where the siblings of a tree are ordered, all comments that are taken for the documentation of a
place stand on lines of their own exactly if none of them starts on the line on which the nearest
sibling before it ends that is no comment.  The documentation is the text of these comments and
starts on the line of the topmost one. -/
theorem docComments_standAlone_iff (f : SourceFile) {root : Node} (hordered : root.IsOrdered)
    {p : Place} (hp : p ∈ (Place.root root).preorder) :
    ((∀ c ∈ f.docComments p, f.StandsAlone p c) ↔ ¬ f.TakesTrailing p) ∧
      f.docsAbove p =
        match (f.docComments p).getLast? with
        | none => (none, f.startLine p.node)
        | some topmost =>
          (some (Text.joinLines ((f.docComments p).reverse.map f.commentText)),
            f.startLine topmost) := by
  refine ⟨⟨fun halone htrailing => ?_, fun htrailing c hc => ?_⟩, f.docsAbove_eq p⟩
  · obtain ⟨c, hc, hnot⟩ := htrailing.exists_not_standsAlone
    exact hnot (halone c hc)
  · exact standsAlone_of_not_takesTrailing hordered hp htrailing hc

/-! ## A comment behind an assignment -/

/-- A module with an assignment, a comment behind it on the same line, and a function below. -/
def notedAssignment : SourceFile where
  grammar := Grammar.python
  source := Utf8.encode "x = 1  # note\ndef f():\n    return x\n"
  path := ⟨[], ["tools.py"]⟩

def assignmentStatement : Node :=
  ⟨"expression_statement", true, "", 0, 5,
    [⟨"assignment", true, "", 0, 5,
      [⟨"identifier", true, "left", 0, 1, []⟩, ⟨"=", false, "", 2, 3, []⟩,
        ⟨"integer", true, "right", 4, 5, []⟩]⟩]⟩

def assignmentNote : Node := ⟨"comment", true, "", 7, 13, []⟩

/-- The function below the assignment. -/
def functionBelow : Node :=
  ⟨"function_definition", true, "", 14, 35,
    [⟨"def", false, "", 14, 17, []⟩, ⟨"identifier", true, "name", 18, 19, []⟩,
      ⟨"parameters", true, "parameters", 19, 21,
        [⟨"(", false, "", 19, 20, []⟩, ⟨")", false, "", 20, 21, []⟩]⟩,
      ⟨":", false, "", 21, 22, []⟩,
      ⟨"block", true, "body", 27, 35,
        [⟨"return_statement", true, "", 27, 35,
          [⟨"return", false, "", 27, 33, []⟩, ⟨"identifier", true, "", 34, 35, []⟩]⟩]⟩]⟩

def notedAssignmentTree : Node :=
  ⟨"module", true, "", 0, 36, [assignmentStatement, assignmentNote, functionBelow]⟩

/-- The place of the function. -/
def functionPlace : Place := ⟨functionBelow, [2], [assignmentNote, assignmentStatement]⟩

theorem functionPlace_mem_preorder : functionPlace ∈ (Place.root notedAssignmentTree).preorder := by
  have hchildren : (Place.root notedAssignmentTree).children =
      [⟨assignmentStatement, [0], []⟩, ⟨assignmentNote, [1], [assignmentStatement]⟩,
        functionPlace] := rfl
  refine Place.mem_preorder_of_mem_children (Place.mem_preorder_self _) ?_
  rw [hchildren]
  exact List.mem_cons_of_mem _ (List.mem_cons_of_mem _ List.mem_cons_self)

theorem docComments_standAlone_iff_notedAssignment :
    notedAssignmentTree.IsOrdered ∧
      functionPlace ∈ (Place.root notedAssignmentTree).preorder ∧
      ((∀ c ∈ notedAssignment.docComments functionPlace,
          notedAssignment.StandsAlone functionPlace c) ↔
        ¬ notedAssignment.TakesTrailing functionPlace) ∧
      notedAssignment.docsAbove functionPlace =
        match (notedAssignment.docComments functionPlace).getLast? with
        | none => (none, notedAssignment.startLine functionBelow)
        | some topmost =>
          (some (Text.joinLines
            ((notedAssignment.docComments functionPlace).reverse.map notedAssignment.commentText)),
            notedAssignment.startLine topmost) := by
  have hordered : notedAssignmentTree.IsOrdered := by decide
  exact ⟨hordered, functionPlace_mem_preorder,
    docComments_standAlone_iff notedAssignment hordered functionPlace_mem_preorder⟩

/-- The comment behind the assignment becomes the documentation of the function below, which starts
on the line of the assignment. -/
theorem exists_docComment_behind_assignment :
    notedAssignmentTree.IsNested ∧ notedAssignmentTree.IsOrdered ∧
      functionPlace ∈ (Place.root notedAssignmentTree).preorder ∧
      notedAssignment.docComments functionPlace = [assignmentNote] ∧
      notedAssignment.docsAbove functionPlace =
        (some ("# note" : Text), notedAssignment.startLine assignmentStatement) ∧
      ¬ notedAssignment.StandsAlone functionPlace assignmentNote := by
  have hdocs : notedAssignment.docComments functionPlace = [assignmentNote] := rfl
  refine ⟨by decide, by decide, functionPlace_mem_preorder, hdocs, rfl, fun halone => ?_⟩
  have hline := halone [] [assignmentStatement] rfl assignmentStatement rfl
  exact absurd hline (by decide)

end CodeCatalog.SourceFile
