import CodeCatalog.Proofs.Extraction.LineOrder
import CodeCatalog.Proofs.Extraction.Site
import CodeCatalog.Proofs.Text.ByteLines
set_option autoImplicit false

/-!
# Where snippets stand

A line of the text of a node stands on a line of the source, as many lines below the first one as
lines are before it.  The chunks of a long entity count their lines from the first line of the
entity, which may be above that of the text.  So their ranges are those of the source, moved up by
that distance and cut off at the last line of the entity.
-/

namespace CodeCatalog

/-! ## The lines of a node -/

namespace Source

variable {source : Bytes} {a b k : Nat}

theorem length_slice_le : (slice source a b).length ≤ b - a := List.length_take_le _ _

theorem take_slice (h : k ≤ b - a) : (slice source a b).take k = slice source a (a + k) := by
  rw [slice, slice, List.take_take, Nat.min_eq_left h, Nat.add_sub_cancel_left]

theorem drop_slice : (slice source a b).drop k = slice source (a + k) b := by
  rw [slice, slice, List.drop_take, List.drop_drop, Nat.sub_sub]

end Source

namespace Node

variable (source : Bytes) (n : Node)

/-- The offset at which a line of the text of a node starts. -/
def lineStart (j : Nat) : Nat := n.start + Utf8.lineOffset (Source.slice source n.start n.stop) j

/-- The line of the source, counted from one, on which a line of the text of a node stands. -/
def sourceLine (j : Nat) : Nat := Source.row source (n.lineStart source j) + 1

/-- A line of the text of a node starts at an offset: the text up to there is that of the lines
before it, and from there on that of the line and those behind it. -/
structure LineStartsAt (j offset : Nat) : Prop where
  start_le : n.start ≤ offset
  before : Source.text source n.start offset =
    ((n.text source).lines.take j).flatMap (· ++ [Glyph.newline])
  behind : Source.text source offset n.stop = Text.joinLines ((n.text source).lines.drop j)

section Lines

variable {source n} {j : Nat} (hj : j < (n.text source).lines.length)

include hj in
theorem lt_length_byteLines :
    j < (Utf8.byteLines (Source.slice source n.start n.stop)).length := by
  rwa [← Utf8.length_lines_decodeTolerant]

include hj in
theorem slice_lineStart :
    Source.slice source n.start (n.lineStart source j) =
      (Source.slice source n.start n.stop).take
        (Utf8.lineOffset (Source.slice source n.start n.stop) j) := by
  have hoffset := Utf8.lineOffset_le (lt_length_byteLines hj)
  exact (Source.take_slice (Nat.le_trans hoffset Source.length_slice_le)).symm

include hj in
theorem lineStartsAt_lineStart : n.LineStartsAt source j (n.lineStart source j) where
  start_le := Nat.le_add_right _ _
  before := by
    rw [Source.text, slice_lineStart hj]
    exact Utf8.decodeTolerant_take_lineOffset (lt_length_byteLines hj)
  behind := by
    rw [Source.text, lineStart, ← Source.drop_slice]
    exact Utf8.decodeTolerant_drop_lineOffset (lt_length_byteLines hj)

include hj in
/-- The lines of a node follow one another from the line on which it starts. -/
theorem sourceLine_eq : n.sourceLine source j = n.startLine source + j := by
  have hrow : Source.row source (n.lineStart source j) = Source.row source n.start + j := by
    have hle : n.start ≤ n.lineStart source j := Nat.le_add_right _ _
    rw [Source.row_eq_add_count_slice hle, slice_lineStart hj,
      Utf8.count_take_lineOffset (lt_length_byteLines hj)]
  rw [sourceLine, hrow, startLine, startRow]
  omega

end Lines

end Node

/-! ## Runs and chunks -/

theorem placed_mem_placeRuns {run : PlacedRun} {start : Nat} {runs : List (List Text)}
    (h : run ∈ placeRuns start runs) :
    run.lines ∈ runs ∧ run.start + run.lines.length ≤ start + runs.flatten.length := by
  induction runs generalizing start with
  | nil => exact absurd h List.not_mem_nil
  | cons lines rest ih =>
    rw [List.flatten_cons, List.length_append]
    rcases List.mem_cons.1 h with rfl | h
    · exact ⟨List.mem_cons_self, by simp⟩
    · obtain ⟨hmem, hle⟩ := ih h
      exact ⟨List.mem_cons_of_mem _ hmem, by omega⟩

theorem Entity.forall₂_chunksFrom {e : Entity Text} {total number : Nat} {runs : List PlacedRun}
    {P : PlacedRun → Entity Text → Prop}
    (h : ∀ run ∈ runs, ∀ number, P run (e.chunk total number run)) :
    List.Forall₂ P runs (e.chunksFrom total number runs) := by
  induction runs generalizing number with
  | nil => exact .nil
  | cons run rest ih =>
    obtain ⟨hrun, hrest⟩ := List.forall_mem_cons.1 h
    exact .cons (hrun _) (ih hrest)

/-- A chunk holds a run of lines of a node, and its range is that on which they stand in the source,
moved up by some lines and cut off at a last one. -/
structure StandsOn (source : Bytes) (n : Node) (up last : Int) (run : PlacedRun)
    (c : Entity Text) : Prop where
  snippet : c.snippet = Text.joinLines run.lines
  lineFrom : c.lineFrom = min last (n.sourceLine source run.start - up)
  lineTo : c.lineTo = min last (n.sourceLine source (run.start + run.lines.length - 1) - up)

section Chunks

variable {source : Bytes} {n : Node} {e : Entity Text} {runs : List (List Text)}
  (hflatten : runs.flatten = (n.text source).lines)

include hflatten in
/-- The chunks of the text of a node are as far above it as their entity is. -/
theorem forall₂_standsOn_chunks (hruns : [] ∉ runs) :
    List.Forall₂ (StandsOn source n (n.startLine source - e.lineFrom) e.lineTo)
      (placeRuns 0 runs) (e.chunks runs) := by
  refine Entity.forall₂_chunksFrom fun run hrun number => ?_
  obtain ⟨hmem, hle⟩ := placed_mem_placeRuns hrun
  have hlength : 0 < run.lines.length :=
    List.length_pos_iff.2 fun hnil => hruns (hnil ▸ hmem)
  rw [hflatten] at hle
  have hfirst : n.sourceLine source run.start = n.startLine source + run.start :=
    Node.sourceLine_eq (by omega)
  have hlast : n.sourceLine source (run.start + run.lines.length - 1) =
      n.startLine source + (run.start + run.lines.length - 1) := Node.sourceLine_eq (by omega)
  refine ⟨rfl, ?_, ?_⟩
  · rw [hfirst, Entity.chunk]
    simp only
    omega
  · rw [hlast, Entity.chunk]
    simp only
    omega

include hflatten in
/-- The first of the chunks starts as far above the node as they are moved up. -/
theorem exists_head_of_standsOn {up last : Int} {chunks : List (Entity Text)} (hup : 0 ≤ up)
    (hlast : n.startLine source ≤ last)
    (h : List.Forall₂ (StandsOn source n up last) (placeRuns 0 runs) chunks) :
    ∃ c ∈ chunks.head?, c.lineFrom = n.startLine source - up := by
  have hpos : 0 < (n.text source).lines.length :=
    List.length_pos_iff.2 (List.splitOn_ne_nil Glyph.newline _)
  have hfirst : n.sourceLine source 0 = n.startLine source := Node.sourceLine_eq hpos
  cases runs with
  | nil =>
    rw [← hflatten] at hpos
    exact absurd hpos (Nat.lt_irrefl 0)
  | cons lines rest =>
    rw [placeRuns] at h
    cases h with
    | @cons _ c _ others hhead _ =>
      have hline := hhead.lineFrom
      rw [hfirst] at hline
      exact ⟨c, rfl, by omega⟩

include hflatten in
/-- Chunks are moved up by one distance only. -/
theorem eq_of_standsOn {up up' last : Int} {chunks : List (Entity Text)}
    (hup : 0 ≤ up) (hup' : 0 ≤ up') (hlast : n.startLine source ≤ last)
    (h : List.Forall₂ (StandsOn source n up last) (placeRuns 0 runs) chunks)
    (h' : List.Forall₂ (StandsOn source n up' last) (placeRuns 0 runs) chunks) : up = up' := by
  obtain ⟨c, hc, hline⟩ := exists_head_of_standsOn hflatten hup hlast h
  obtain ⟨c', hc', hline'⟩ := exists_head_of_standsOn hflatten hup' hlast h'
  obtain rfl := Option.mem_unique hc hc'
  omega

end Chunks

namespace SourceFile

variable {f : SourceFile} {root : Node} {p : Place} {scope : Scope} {wrapper : Option Wrapper}
  {s : Site}

/-! ## What an entity shows -/

/-- The declarators of a declaration. -/
def declaratorsOf (rule : Rule) (p : Place) : List Place :=
  p.namedChildren.filter fun c => rule.declarators.contains c.node.type

/-- The node whose text the entity of a site of a visited node shows: a declarator that is one of
several, and otherwise the node or, if its text is kept, the wrapper. -/
def snippetNode (p : Place) (wrapper : Option Wrapper) (s : Site) : Node :=
  if (declaratorsOf s.rule p).length ≤ 1 then shownNode p wrapper else s.place.node

/-- The entity of a site shows the text of a node.  The first site of a visited node takes the
documentation of a place, and the later declarators of a declaration take none. -/
inductive Shows (f : SourceFile) (root : Node) (s : Site) : Node → Option Place → Prop
  | first {p : Place} {scope : Scope} {wrapper : Option Wrapper}
    (hp : f.Visited root p scope wrapper) (hs : (f.visit p scope wrapper).sites.head? = some s) :
    f.Shows root s (snippetNode p wrapper s) (some (anchor p wrapper))
  | later {p : Place} {scope : Scope} {wrapper : Option Wrapper}
    (hp : f.Visited root p scope wrapper) (hs : s ∈ (f.visit p scope wrapper).sites.tail) :
    f.Shows root s (snippetNode p wrapper s) none

theorem exists_shows (hs : s ∈ f.sites root) : ∃ n docs, f.Shows root s n docs := by
  obtain ⟨p, scope, wrapper, hp, hmem⟩ := exists_visited_of_mem_sites hs
  rcases head?_eq_or_mem_tail hmem with hfirst | hlater
  · exact ⟨_, _, .first hp hfirst⟩
  · exact ⟨_, _, .later hp hlater⟩

/-- The node at which the documentation of a place begins: the topmost comment or, without any
documentation, the node of the place. -/
def docsTop (f : SourceFile) (p : Place) : Node := (f.docComments p).getLast?.getD p.node

theorem docsLine_eq (f : SourceFile) (p : Place) :
    f.docsLine p = f.startLine (f.docsTop p) := by
  rw [docsLine, docsAbove_eq, docsTop]
  cases (f.docComments p).getLast? <;> rfl

/-! ### Definitions and declarators -/

/-- What a site shows of a node, below the documentation that starts on a line, if there is any. -/
structure ShowsBelow (f : SourceFile) (n : Node) (docsLine? : Option Nat) (e : Entity Text) :
    Prop where
  snippet : e.snippet = f.text n
  lineTo : e.lineTo = n.endLine f.source
  lineFrom : e.lineFrom = min ↑(docsLine?.getD (f.startLine n)) ↑(f.startLine n)

variable {rule : Rule} (hroot : root.IsNested) (hp : f.Visited root p scope wrapper)

include hroot hp in
theorem showsBelow_of_definition? (hdefines : rule.declarators = [])
    (h : f.definition? p rule scope wrapper = some s) :
    f.ShowsBelow (snippetNode p wrapper s) (some (f.docsLine (anchor p wrapper))) s.entity := by
  have hnode : snippetNode p wrapper s = shownNode p wrapper := by
    have hrule : s.rule = rule := (defines_of_definition? h).rule_eq
    simp [snippetNode, declaratorsOf, hrule, hdefines]
  obtain ⟨marked, hmarked, hline⟩ := lineFrom_of_definition? h
  -- The name stands inside the text, so it does not start before that.
  have hinside : marked.Inside (shownNode p wrapper) := by
    refine Node.Inside.trans ?_ (hp.inside_shownNode hroot)
    rcases hmarked with rfl | hmem
    · exact .refl _
    · exact hroot p.node hp.node_mem_nodes marked hmem
  have hmark : f.startLine (shownNode p wrapper) ≤ f.startLine marked :=
    Node.startLine_le_startLine hinside.start_le
  have hlineFrom : s.entity.lineFrom =
      min (f.docsLine (anchor p wrapper) : Int) (f.startLine (shownNode p wrapper)) := by
    rw [hline]
    omega
  rw [hnode]
  unfold definition? at h
  obtain ⟨rawName, -, h⟩ := Option.bind_eq_some_iff.1 h
  cases h
  exact ⟨rfl, rfl, hlineFrom⟩

variable {d : Declaration} {q nameNode : Place}

include hroot hp in
theorem showsBelow_declaratorSite (hplace : d.place = p) (hwrapper : d.wrapper = wrapper)
    (hsingle : d.single = ((declaratorsOf d.rule p).length == 1))
    (hdocs : d.docs = f.docsAbove (anchor p wrapper)) (hq : q ∈ declaratorsOf d.rule p)
    (hname : declaratorName? d.rule q = some nameNode) (isFirst : Bool) :
    f.ShowsBelow (snippetNode p wrapper (f.declaratorSite d isFirst q nameNode))
      (if isFirst then some (f.docsLine (anchor p wrapper)) else none)
      (f.declaratorSite d isFirst q nameNode).entity := by
  have hnode : snippetNode p wrapper (f.declaratorSite d isFirst q nameNode) =
      declaredNode d q := by
    have hpos : 0 < (declaratorsOf d.rule p).length := List.length_pos_of_mem hq
    have hone : (declaratorsOf d.rule p).length ≤ 1 ↔ d.single = true := by
      rw [hsingle, beq_iff_eq]
      omega
    rw [declaredNode, hplace, hwrapper]
    exact if_congr hone rfl rfl
  obtain ⟨hqinside, hnameinside⟩ := hp.declarator_inside hroot (List.mem_filter.1 hq).1 hname
  have hmark : f.startLine (declaredNode d q) ≤ f.startLine nameNode.node := by
    refine Node.startLine_le_startLine ?_
    rcases declaredNode_cases d q with hshown | hshown
    · rw [hshown, hplace, hwrapper]
      exact ((hnameinside.trans hqinside).trans (hp.inside_shownNode hroot)).start_le
    · rw [hshown]
      exact hnameinside.start_le
  rw [hnode]
  refine ⟨rfl, rfl, ?_⟩
  rw [lineFrom_declaratorSite, hdocs]
  cases isFirst with
  | true =>
    simp only [if_true, Option.getD_some, docsLine]
    omega
  | false =>
    simp only [Bool.false_eq_true, if_false, Option.getD_none]
    omega

/-! ### Sites -/

include hroot in
theorem Shows.showsBelow {n : Node} {docs : Option Place} (h : f.Shows root s n docs) :
    f.ShowsBelow n (docs.map f.docsLine) s.entity := by
  cases h with
  | @first p scope wrapper hp hs =>
    have hmem := List.mem_of_head? hs
    obtain ⟨rule, -, -, ⟨hdefines, hsite, -⟩ | ⟨-, hsites⟩⟩ := sites_visit_cases hmem
    · exact showsBelow_of_definition? hroot hp hdefines hsite
    · rw [hsites] at hs
      obtain ⟨q, hq, nameNode, hname, rfl⟩ := exists_declarator_of_head? hs
      exact showsBelow_declaratorSite hroot hp rfl rfl rfl rfl hq hname true
  | @later p scope wrapper hp hs =>
    have hmem := List.mem_of_mem_tail hs
    obtain ⟨rule, -, -, ⟨-, -, hsites⟩ | ⟨-, hsites⟩⟩ := sites_visit_cases hmem
    · rw [hsites] at hs
      exact absurd hs List.not_mem_nil
    · rw [hsites] at hs
      obtain ⟨q, hq, nameNode, hname, rfl⟩ := exists_declarator_of_mem_tail hs
      exact showsBelow_declaratorSite hroot hp rfl rfl rfl rfl hq hname false

/-! ## The lines of chunks -/

/-- An entity starts on the first line of the text that it shows exactly if what its documentation
begins with does not start above that. -/
theorem ShowsBelow.lineFrom_eq_iff {n : Node} {docs : Option Place} {e : Entity Text}
    (h : f.ShowsBelow n (docs.map f.docsLine) e) :
    e.lineFrom = f.startLine n ↔ ∀ p ∈ docs, f.startLine n ≤ f.startLine (f.docsTop p) := by
  have hline := h.lineFrom
  cases docs with
  | none =>
    simp only [Option.map_none, Option.getD_none] at hline
    simp [hline]
  | some p =>
    rw [Option.map_some, Option.getD_some, docsLine_eq] at hline
    simp only [Option.mem_some_iff, forall_eq']
    omega

section Split

variable {n : Node} {docs : Option Place} {e : Entity Text} {bound : Int}

theorem ShowsBelow.flatten_packLines (h : f.ShowsBelow n (docs.map f.docsLine) e) :
    (packLines bound e.snippet.lines).flatten = (f.text n).lines := by
  rw [CodeCatalog.flatten_packLines, h.snippet]

theorem ShowsBelow.forall₂_standsOn (h : f.ShowsBelow n (docs.map f.docsLine) e)
    (hsplit : e.fits (some bound) = false) :
    List.Forall₂ (StandsOn f.source n (f.startLine n - e.lineFrom) e.lineTo)
      (placeRuns 0 (packLines bound e.snippet.lines)) (e.split (some bound)) := by
  rw [Entity.split_of_not_fits hsplit]
  exact forall₂_standsOn_chunks h.flatten_packLines fun hnil => ne_nil_of_mem_packLines hnil rfl

theorem ShowsBelow.startLine_le_lineTo (h : f.ShowsBelow n (docs.map f.docsLine) e)
    (hbound : 1 ≤ bound) (hsplit : e.fits (some bound) = false) :
    (f.startLine n : Int) ≤ e.lineTo := by
  have hne : f.text n ≠ [] := by
    intro hnil
    have hfits : e.fits (some bound) = true := by
      rw [Entity.fits, h.snippet, hnil, Bool.or_eq_true, decide_eq_true_eq]
      exact .inr (Int.le_trans (by decide) hbound)
    rw [hfits] at hsplit
    cases hsplit
  rw [h.lineTo]
  exact Int.ofNat_le.2
    (Node.startLine_le_endLine (Node.coversByte_of_text_ne_nil hne) (Nat.le_refl n.stop))

/-- The ranges of the chunks are those of the source exactly if the entity starts where its text
does. -/
theorem ShowsBelow.forall₂_standsOn_zero_iff (h : f.ShowsBelow n (docs.map f.docsLine) e)
    (hbound : 1 ≤ bound) (hsplit : e.fits (some bound) = false) :
    List.Forall₂ (StandsOn f.source n 0 e.lineTo)
        (placeRuns 0 (packLines bound e.snippet.lines)) (e.split (some bound)) ↔
      e.lineFrom = f.startLine n := by
  have hstands := h.forall₂_standsOn hsplit
  constructor
  · intro htrue
    have hup : 0 ≤ (f.startLine n : Int) - e.lineFrom := by
      rw [h.lineFrom]
      omega
    have hzero := eq_of_standsOn h.flatten_packLines hup (Int.le_refl 0)
      (h.startLine_le_lineTo hbound hsplit) hstands htrue
    omega
  · intro hline
    rwa [hline, Int.sub_self] at hstands

end Split

/-- Chunks of an entity that shows the text of a node.  They hold runs of lines of that text, which
stand on lines of the source as far below their ranges as the node starts below the entity. -/
structure StandsInSource (f : SourceFile) (n : Node) (docs : Option Place) (e : Entity Text)
    (chunks : List (Entity Text)) : Prop where
  snippet : e.snippet = f.text n
  lines : ∀ j < (f.text n).lines.length, n.LineStartsAt f.source j (n.lineStart f.source j)
  runs : ∃ runs, runs.flatten = (f.text n).lines ∧ [] ∉ runs ∧
    List.Forall₂ (StandsOn f.source n (f.startLine n - e.lineFrom) e.lineTo)
      (placeRuns 0 runs) chunks ∧
    (List.Forall₂ (StandsOn f.source n 0 e.lineTo) (placeRuns 0 runs) chunks ↔
      e.lineFrom = f.startLine n)
  lineFrom_eq_iff : e.lineFrom = f.startLine n ↔
    ∀ p ∈ docs, f.startLine n ≤ f.startLine (f.docsTop p)

/-- A site shows the text of a node, and the chunks of its entity are placed by the lines of that
text in the source.  Their ranges are those of the source exactly if neither the documentation nor,
without any, the node that it is looked for above starts on a line above the text. -/
theorem split_standsInSource (f : SourceFile) {root : Node} (hroot : root.IsNested) {s : Site}
    (hs : s ∈ f.sites root) {bound : Int} (hbound : 1 ≤ bound)
    (hsplit : s.entity.fits (some bound) = false) :
    (∃ n docs, f.Shows root s n docs) ∧ ∀ n docs, f.Shows root s n docs →
      f.StandsInSource n docs s.entity (s.entity.split (some bound)) := by
  refine ⟨exists_shows hs, fun n docs hshows => ?_⟩
  have hshown := hshows.showsBelow hroot
  refine ⟨hshown.snippet, fun j hj => Node.lineStartsAt_lineStart hj, ?_, hshown.lineFrom_eq_iff⟩
  exact ⟨packLines bound s.entity.snippet.lines, hshown.flatten_packLines,
    fun hnil => ne_nil_of_mem_packLines hnil rfl, hshown.forall₂_standsOn hsplit,
    hshown.forall₂_standsOn_zero_iff hbound hsplit⟩

/-- The documented constant is split, and its first line counts from the comment. -/
theorem exists_site_exportedLimits :
    ∃ s ∈ exportedLimits.sites exportedLimitsTree, s.entity.fits (some 24) = false ∧
      (s.entity.split (some 24)).map (fun c => (c.lineFrom, c.lineTo)) = [(1, 1), (2, 4)] := by
  let exported : Place :=
    ⟨⟨"export_statement", true, "", 11, 47,
        [⟨"export", false, "", 11, 17, []⟩, limitsDeclaration]⟩,
      [1], [⟨"comment", true, "", 0, 10, []⟩]⟩
  have hroot : exportedLimits.visit (Place.root exportedLimitsTree) exportedLimits.rootScope none =
      .pass := rfl
  have hmem : exported ∈ (Place.root exportedLimitsTree).namedChildren :=
    List.mem_cons_of_mem _ (List.mem_singleton.2 rfl)
  let declaration : Place := ⟨limitsDeclaration, [1, 1], []⟩
  have hunwrap : exportedLimits.visit exported exportedLimits.rootScope none =
      .unwrap (some declaration) ⟨exported, true⟩ := rfl
  have hfacts : (exportedLimits.visit declaration exportedLimits.rootScope
      (some ⟨exported, true⟩)).sites.head?.map (fun s => (s.entity.fits (some 24),
        (s.entity.split (some 24)).map fun c => (c.lineFrom, c.lineTo))) =
      some (false, [(1, 1), (2, 4)]) := by
    decide +kernel
  obtain ⟨s, hhead, hfacts⟩ := Option.map_eq_some_iff.1 hfacts
  have hs : s ∈ exportedLimits.walk (fun s => [s]) exported exportedLimits.rootScope none := by
    rw [walk_of_unwrap hunwrap]
    exact mem_walk_of_mem_sites_visit (List.mem_of_head? hhead)
  exact ⟨s, mem_walk_of_pass hroot hmem hs, congrArg Prod.fst hfacts, congrArg Prod.snd hfacts⟩

theorem split_standsInSource_exportedLimits :
    exportedLimitsTree.IsNested ∧ (1 : Int) ≤ 24 ∧
      ∃ s ∈ exportedLimits.sites exportedLimitsTree, s.entity.fits (some 24) = false ∧
        (s.entity.split (some 24)).map (fun c => (c.lineFrom, c.lineTo)) = [(1, 1), (2, 4)] ∧
        (∃ n docs, exportedLimits.Shows exportedLimitsTree s n docs) ∧
        ∀ n docs, exportedLimits.Shows exportedLimitsTree s n docs →
          exportedLimits.StandsInSource n docs s.entity (s.entity.split (some 24)) := by
  have hnested : exportedLimitsTree.IsNested := by decide
  obtain ⟨s, hs, hfits, hlines⟩ := exists_site_exportedLimits
  exact ⟨hnested, by decide, s, hs, hfits, hlines,
    split_standsInSource exportedLimits hnested hs (by decide) hfits⟩

/-! ## A declaration on several lines -/

/-- A file with a declaration of two constants, the first of which starts on its second line. -/
def twoConstants : SourceFile where
  grammar := Grammar.javascript
  source := Utf8.encode "const
  a = [
    1,
  ],
  b = 2;
"
  path := ⟨[], ["view.js"]⟩

/-- The first constant. -/
def firstConstant : Node :=
  ⟨"variable_declarator", true, "", 8, 24,
    [⟨"identifier", true, "name", 8, 9, []⟩, ⟨"=", false, "", 10, 11, []⟩,
      ⟨"array", true, "value", 12, 24,
        [⟨"[", false, "", 12, 13, []⟩, ⟨"number", true, "", 18, 19, []⟩,
          ⟨",", false, "", 19, 20, []⟩, ⟨"]", false, "", 23, 24, []⟩]⟩]⟩

def twoConstantsDeclaration : Node :=
  ⟨"lexical_declaration", true, "", 0, 34,
    [⟨"const", false, "kind", 0, 5, []⟩, firstConstant, ⟨",", false, "", 24, 25, []⟩,
      ⟨"variable_declarator", true, "", 28, 33,
        [⟨"identifier", true, "name", 28, 29, []⟩, ⟨"=", false, "", 30, 31, []⟩,
          ⟨"number", true, "value", 32, 33, []⟩]⟩,
      ⟨";", false, "", 33, 34, []⟩]⟩

def twoConstantsTree : Node := ⟨"program", true, "", 0, 35, [twoConstantsDeclaration]⟩

/-- The first constant is split above its lines, and nothing is documented. -/
theorem exists_site_firstConstant :
    ∃ s ∈ twoConstants.sites twoConstantsTree,
      twoConstants.Shows twoConstantsTree s firstConstant
        (some ⟨twoConstantsDeclaration, [0], []⟩) ∧
      s.entity.fits (some 8) = false ∧ s.entity.lineTo = 4 ∧
      (s.entity.split (some 8)).map Entity.lineFrom = [1, 2, 3] := by
  let declaration : Place := ⟨twoConstantsDeclaration, [0], []⟩
  have hroot : twoConstants.visit (Place.root twoConstantsTree) twoConstants.rootScope none =
      .pass := rfl
  have hmem : declaration ∈ (Place.root twoConstantsTree).namedChildren := List.mem_singleton.2 rfl
  have hfacts : (twoConstants.visit declaration twoConstants.rootScope none).sites.head?.map
      (fun s => (s.entity.fits (some 8), s.entity.lineTo,
        (s.entity.split (some 8)).map Entity.lineFrom)) = some (false, 4, [1, 2, 3]) := by
    decide +kernel
  have hnode : (twoConstants.visit declaration twoConstants.rootScope none).sites.head?.map
      (snippetNode declaration none) = some firstConstant := rfl
  obtain ⟨s, hhead, hfacts⟩ := Option.map_eq_some_iff.1 hfacts
  obtain ⟨hfits, hlineTo, hlines⟩ : s.entity.fits (some 8) = false ∧ s.entity.lineTo = 4 ∧
      (s.entity.split (some 8)).map Entity.lineFrom = [1, 2, 3] := by
    simpa only [Prod.mk.injEq] using hfacts
  rw [hhead, Option.map_some, Option.some.injEq] at hnode
  have hs : s ∈ twoConstants.sites twoConstantsTree :=
    mem_walk_of_pass hroot hmem (mem_walk_of_mem_sites_visit (List.mem_of_head? hhead))
  have hshows := Shows.first (Visited.start.pass hroot hmem) hhead
  rw [hnode] at hshows
  exact ⟨s, hs, hshows, hfits, hlineTo, hlines⟩

/-- Without documentation, the ranges of chunks need not be those of the source. -/
theorem not_standsOn_of_docComments_eq_nil :
    ¬ ∀ (f : SourceFile) (root : Node) (s : Site) (n : Node) (docs : Option Place) (bound : Int),
      root.IsNested → s ∈ f.sites root → f.Shows root s n docs → 1 ≤ bound →
      s.entity.fits (some bound) = false →
      ∃ runs, runs.flatten = (f.text n).lines ∧
        (List.Forall₂ (StandsOn f.source n 0 s.entity.lineTo) (placeRuns 0 runs)
            (s.entity.split (some bound)) ↔ ∀ p ∈ docs, f.docComments p = []) := by
  intro hclaim
  obtain ⟨s, hs, hshows, hfits, hlineTo, hlines⟩ := exists_site_firstConstant
  obtain ⟨runs, hflatten, htrue⟩ :=
    hclaim twoConstants twoConstantsTree s _ _ 8 (by decide) hs hshows (by decide) hfits
  have hnodocs : ∀ p ∈ some (Place.mk twoConstantsDeclaration [0] []),
      twoConstants.docComments p = [] := by
    intro p hp
    obtain rfl := Option.some.inj hp
    rfl
  have hstart : firstConstant.startLine twoConstants.source = 2 := by decide
  have hlast : (firstConstant.startLine twoConstants.source : Int) ≤ s.entity.lineTo := by
    rw [hlineTo, hstart]
    decide
  obtain ⟨c, hc, hline⟩ :=
    exists_head_of_standsOn hflatten (Int.le_refl 0) hlast (htrue.2 hnodocs)
  have hfirst := congrArg List.head? hlines
  rw [List.head?_map, hc] at hfirst
  rw [hstart] at hline
  have hone : c.lineFrom = 1 := Option.some.inj hfirst
  omega

end SourceFile

end CodeCatalog
