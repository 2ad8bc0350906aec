import CodeCatalog.Grammar.Script
import CodeCatalog.Proofs.Chunk.Cut
import CodeCatalog.Proofs.Extraction.Docs
import CodeCatalog.Proofs.Extraction.Row
import CodeCatalog.Proofs.Extraction.Visited
set_option autoImplicit false

/-!
# The lines of extracted entities

The line of an entity is that of its name, the first line is the least of those of its
documentation, its text and its name, and the last line is that of its text.  The name stands
inside the text, whether the text is that of the node, of a declarator or of a wrapper around them,
so the line lies in the range, and the chunks of a long entity keep it so.
-/

namespace CodeCatalog

/-- Lines count from one, and the line of an entity lies in its range. -/
def Entity.HasLines (e : Entity Text) : Prop := 1 ≤ e.lineFrom ∧ e.LinesOrdered

theorem Entity.LinesWithin.hasLines {c e : Entity Text} (h : c.LinesWithin e)
    (he : e.HasLines) : c.HasLines :=
  ⟨Int.le_trans he.1 h.lineFrom_le, h.ordered⟩

namespace SourceFile

variable {f : SourceFile} {root : Node} {p : Place} {scope : Scope} {wrapper : Option Wrapper}

/-! ## Nodes for names -/

/-- The nodes where the rule for a node looks for names: for the name of a definition, or for the
names of the declarators.  A wrapper has none. -/
def nameNodes (f : SourceFile) (n : Node) : List Node :=
  let p := Place.root n
  match f.grammar.rule? n.type with
  | none => []
  | some rule =>
    if !rule.unwrapFields.isEmpty then []
    else if !rule.declarators.isEmpty then
      (p.namedChildren.filter fun c => rule.declarators.contains c.node.type).filterMap fun c =>
        (declaratorName? rule c).map Place.node
    else ((p.part? rule.nameFields rule.nameTypes).map Place.node).toList

/-- Each node that the walk of a tree uses as a name covers at least one byte. -/
def NamesCover (f : SourceFile) (root : Node) : Prop :=
  ∀ p scope wrapper, f.Visited root p scope wrapper →
    ∀ c ∈ f.nameNodes p.node, c.CoversByte f.source

theorem namesCover_of_forall_mem_nodes
    (h : ∀ n ∈ root.nodes, ∀ c ∈ f.nameNodes n, c.CoversByte f.source) : f.NamesCover root :=
  fun p _ _ hp => h p.node hp.node_mem_nodes

theorem mem_nameNodes_of_part? {rule : Rule} {c : Place}
    (hrule : f.grammar.rule? p.node.type = some rule) (hunwrap : rule.unwrapFields = [])
    (hdefines : rule.declarators = [])
    (hc : p.part? rule.nameFields rule.nameTypes = some c) : c.node ∈ f.nameNodes p.node := by
  have hnode := p.map_node_part? rule.nameFields rule.nameTypes
  rw [hc, Option.map_some] at hnode
  simp [nameNodes, hrule, hunwrap, hdefines, ← hnode]

theorem map_node_declaratorName? (rule : Rule) (p : Place) :
    (declaratorName? rule p).map Place.node =
      ((p.firstField? rule.nameFields).map Place.node).filter fun n =>
        rule.declaratorNameTypes.isEmpty || rule.declaratorNameTypes.contains n.type := by
  unfold declaratorName?
  cases p.firstField? rule.nameFields with
  | none => rfl
  | some c =>
    simp only [Option.filter_some, Option.map_some]
    split <;> rfl

theorem mem_nameNodes_of_declaratorName? {rule : Rule} {d c : Place}
    (hrule : f.grammar.rule? p.node.type = some rule) (hunwrap : rule.unwrapFields = [])
    (hd : d ∈ p.namedChildren) (htype : d.node.type ∈ rule.declarators)
    (hc : declaratorName? rule d = some c) :
    c.node ∈ f.nameNodes p.node := by
  have hdeclares : rule.declarators ≠ [] := List.ne_nil_of_mem htype
  -- The declarator is looked up in a place of its own, where the same node is found.
  have hmem : d.node ∈ (Place.root p.node).namedChildren.map Place.node := by
    have hroot : (Place.root p.node).namedChildren.map Place.node = p.node.namedChildren :=
      Place.map_node_namedChildren _
    rw [hroot, ← p.map_node_namedChildren]
    exact List.mem_map_of_mem hd
  obtain ⟨d', hd', hnode⟩ := List.mem_map.1 hmem
  have hname : (declaratorName? rule d').map Place.node = some c.node := by
    rw [map_node_declaratorName?, Place.map_node_firstField?, hnode,
      ← Place.map_node_firstField?, ← map_node_declaratorName?, hc, Option.map_some]
  have hd'type : d'.node.type ∈ rule.declarators := hnode ▸ htype
  simpa [nameNodes, hrule, hunwrap, hdeclares] using ⟨d', ⟨hd', hd'type⟩, by simpa using hname⟩

/-! ## Documentation -/

/-- The documentation of a place starts on a line that counts from one. -/
theorem one_le_docsAbove (f : SourceFile) (p : Place) : 1 ≤ (f.docsAbove p).2 := by
  rw [docsAbove_eq]
  split
  · exact Node.one_le_startLine f.source p.node
  · exact Node.one_le_startLine f.source _

/-! ## Sites -/

/-- The node whose text an entity of a node shows: the wrapper, if its text is kept. -/
def shownNode (p : Place) (wrapper : Option Wrapper) : Node :=
  match wrapper with
  | some w => if w.keepText then w.place.node else p.node
  | none => p.node

theorem Visited.inside_shownNode (hroot : root.IsNested)
    (hp : f.Visited root p scope wrapper) : p.node.Inside (shownNode p wrapper) := by
  unfold shownNode
  cases wrapper with
  | none => exact .refl _
  | some w =>
    simp only
    split
    · exact hp.inside_wrapper hroot w rfl
    · exact .refl _

/-- A declarator lies inside its declaration, and its name inside the declarator. -/
theorem Visited.declarator_inside (hroot : root.IsNested) (hp : f.Visited root p scope wrapper)
    {rule : Rule} {d nameNode : Place} (hd : d ∈ p.namedChildren)
    (hname : declaratorName? rule d = some nameNode) :
    d.node.Inside p.node ∧ nameNode.node.Inside d.node := by
  have hdmem := Place.node_mem_children_of_mem_namedChildren hd
  have hdtree := Node.mem_nodes_of_mem_children hp.node_mem_nodes hdmem
  have hfield := (Option.filter_eq_some_iff.1 hname).1
  have hnamemem := Place.node_mem_children (Place.mem_children_of_firstField? hfield)
  exact ⟨hroot _ hp.node_mem_nodes _ hdmem, hroot _ hdtree _ hnamemem⟩

/-- An entity that is marked at a node inside the text that is shown. -/
theorem hasLines_of_marked {e : Entity Text} {marked shown : Node} {docLine : Nat}
    (hcovers : marked.CoversByte f.source) (hinside : marked.Inside shown) (hdoc : 1 ≤ docLine)
    (hline : e.line = f.startLine marked) (hlineTo : e.lineTo = shown.endLine f.source)
    (hlineFrom : e.lineFrom = min (docLine : Int) (min ↑(f.startLine shown) ↑(f.startLine marked)) ∨
      e.lineFrom = f.startLine shown) : e.HasLines := by
  have hend : f.startLine marked ≤ shown.endLine f.source :=
    Node.startLine_le_endLine hcovers hinside.stop_le
  have hstart : f.startLine shown ≤ f.startLine marked :=
    Node.startLine_le_startLine hinside.start_le
  have hshown : 1 ≤ f.startLine shown := Node.one_le_startLine f.source shown
  refine ⟨?_, ?_, ?_⟩ <;> omega

/-- A name that is not that of a node of its own is part of the node. -/
theorem coversByte_of_nameBy {rule : NameRule} {name : Text}
    (hnested : ∀ c ∈ p.node.children, c.Inside p.node)
    (hname : (f.nameBy rule p).bind Text.nonEmpty? = some name) :
    p.node.CoversByte f.source := by
  have htrim : (f.text p.node).trim.nonEmpty?.bind Text.nonEmpty? = some name →
      p.node.CoversByte f.source := by
    intro h
    refine Node.coversByte_of_text_ne_nil fun hnil => ?_
    rw [text, hnil] at h
    cases h
  cases rule with
  | wholeText => exact htrim hname
  | importClause =>
    unfold nameBy at hname
    simp only at hname
    split at hname
    · rename_i c hc
      have hmem : c ∈ p.children := by
        rcases Option.or_eq_some_iff.1 hc with hc | ⟨_, hc⟩
        · exact Place.mem_children_of_mem_namedChildren (List.mem_of_find?_eq_some hc)
        · exact Place.mem_children_of_field? hc
      have hinside : c.node.Inside p.node := hnested _ (Place.node_mem_children hmem)
      have hcovers : c.node.CoversByte f.source := by
        refine Node.coversByte_of_text_ne_nil fun hnil => ?_
        rw [text, hnil] at hname
        cases hname
      obtain ⟨hlt, hlength⟩ := hcovers
      have hstart := hinside.start_le
      have hstop := hinside.stop_le
      exact ⟨by omega, by omega⟩
    · exact htrim hname

theorem hasLines_of_definition? {rule : Rule} {s : Site} (hroot : root.IsNested)
    (hnames : f.NamesCover root) (hp : f.Visited root p scope wrapper)
    (hrule : f.grammar.rule? p.node.type = some rule) (hunwrap : rule.unwrapFields = [])
    (hdefines : rule.declarators = []) (h : f.definition? p rule scope wrapper = some s) :
    s.entity.HasLines := by
  have hnested : ∀ c ∈ p.node.children, c.Inside p.node := hroot p.node hp.node_mem_nodes
  unfold definition? at h
  obtain ⟨rawName, hname, h⟩ := Option.bind_eq_some_iff.1 h
  cases h
  -- The entity is marked at its name node or, without one, at the node that has the name.
  have hmarked : ∀ marked,
      ((p.part? rule.nameFields rule.nameTypes).map Place.node).getD p.node = marked →
      marked.CoversByte f.source ∧ marked.Inside p.node := by
    intro marked hmarked
    cases hpart : p.part? rule.nameFields rule.nameTypes with
    | some c =>
      rw [hpart] at hmarked
      obtain rfl : c.node = marked := hmarked
      have hc := Place.node_mem_children (Place.mem_children_of_part? hpart)
      refine ⟨?_, hnested _ hc⟩
      exact hnames p scope wrapper hp _ (mem_nameNodes_of_part? hrule hunwrap hdefines hpart)
    | none =>
      rw [hpart] at hmarked hname
      obtain rfl : p.node = marked := hmarked
      refine ⟨?_, .refl _⟩
      cases hby : rule.nameRule with
      | none =>
        rw [hby] at hname
        cases hname
      | some r =>
        rw [hby] at hname
        exact coversByte_of_nameBy hnested hname
  generalize hmark : ((p.part? rule.nameFields rule.nameTypes).map Place.node).getD p.node = marked
  obtain ⟨hcovers, hinside⟩ := hmarked marked hmark
  have hshown : marked.Inside (shownNode p wrapper) :=
    hinside.trans (hp.inside_shownNode hroot)
  exact hasLines_of_marked hcovers hshown (f.one_le_docsAbove _) rfl rfl (Or.inl rfl)

/-- A declarator is shown alone, or its declaration is if it has no other one. -/
theorem hasLines_declaratorSite {d : Declaration} {isFirst : Bool} {declarator nameNode : Place}
    (hcovers : nameNode.node.CoversByte f.source) (hdoc : 1 ≤ d.docs.2)
    (hname : nameNode.node.Inside declarator.node)
    (hdeclarator : declarator.node.Inside (shownNode d.place d.wrapper)) :
    (f.declaratorSite d isFirst declarator nameNode).entity.HasLines := by
  have hshown : nameNode.node.Inside
      (if d.single then shownNode d.place d.wrapper else declarator.node) := by
    split
    · exact hname.trans hdeclarator
    · exact hname
  cases isFirst with
  | true => exact hasLines_of_marked hcovers hshown hdoc rfl rfl (Or.inl rfl)
  | false => exact hasLines_of_marked hcovers hshown hdoc rfl rfl (Or.inr rfl)

theorem hasLines_of_declared {rule : Rule} {s : Site} (hroot : root.IsNested)
    (hnames : f.NamesCover root) (hp : f.Visited root p scope wrapper)
    (hrule : f.grammar.rule? p.node.type = some rule) (hunwrap : rule.unwrapFields = [])
    (h : s ∈ f.declared p rule scope wrapper) : s.entity.HasLines := by
  obtain ⟨isFirst, d, hd, nameNode, hname, rfl⟩ := exists_declarator_of_mem_declaratorSites h
  obtain ⟨hd, htype⟩ := List.mem_filter.1 hd
  have hcovers : nameNode.node.CoversByte f.source := by
    refine hnames p scope wrapper hp _ ?_
    exact mem_nameNodes_of_declaratorName? hrule hunwrap hd (List.contains_iff_mem.1 htype) hname
  obtain ⟨hdinside, hinside⟩ := hp.declarator_inside hroot hd hname
  have hdeclarator : d.node.Inside (shownNode p wrapper) :=
    hdinside.trans (hp.inside_shownNode hroot)
  exact hasLines_declaratorSite hcovers (f.one_le_docsAbove _) hinside hdeclarator

theorem hasLines_of_mem_sites {s : Site} (hroot : root.IsNested) (hnames : f.NamesCover root)
    (h : s ∈ f.sites root) : s.entity.HasLines := by
  obtain ⟨p, scope, wrapper, hp, hs⟩ := exists_visited_of_mem_sites h
  obtain ⟨rule, hrule, hunwrap, ⟨hdefines, hs⟩ | ⟨_, hs⟩⟩ := mem_sites_visit hs
  · exact hasLines_of_definition? hroot hnames hp hrule hunwrap hdefines hs
  · exact hasLines_of_declared hroot hnames hp hrule hunwrap hs

/-- Where the ranges of a tree are nested and each node for a name covers a byte, the line of each
entity, whole or a chunk, lies in its range, and lines count from one. -/
theorem hasLines_of_mem_entities (f : SourceFile) {root : Node} (hroot : root.IsNested)
    (hnames : f.NamesCover root) (bound : Option Int) :
    ∀ e ∈ f.entities root bound, 1 ≤ e.lineFrom ∧ e.lineFrom ≤ e.line ∧ e.line ≤ e.lineTo := by
  intro e he
  rw [entities_eq_flatMap] at he
  obtain ⟨s, hs, he⟩ := List.mem_flatMap.1 he
  have hlines := hasLines_of_mem_sites hroot hnames hs
  exact (Entity.linesWithin_of_mem_split hlines.2 he).hasLines hlines

/-- A file with an exported constant, documented and written on four lines. -/
def exportedLimits : SourceFile where
  grammar := Grammar.javascript
  source := Utf8.encode "// Limits.\nexport const limits = [\n  1,\n  2,\n];\n"
  path := ⟨[], ["limits.js"]⟩

/-- The declaration of the constant. -/
def limitsDeclaration : Node :=
  ⟨"lexical_declaration", true, "declaration", 18, 47,
    [⟨"const", false, "", 18, 23, []⟩,
      ⟨"variable_declarator", true, "", 24, 46,
        [⟨"identifier", true, "name", 24, 30, []⟩, ⟨"=", false, "", 31, 32, []⟩,
          ⟨"array", true, "value", 33, 46,
            [⟨"[", false, "", 33, 34, []⟩, ⟨"number", true, "", 37, 38, []⟩,
              ⟨",", false, "", 38, 39, []⟩, ⟨"number", true, "", 42, 43, []⟩,
              ⟨",", false, "", 43, 44, []⟩, ⟨"]", false, "", 45, 46, []⟩]⟩]⟩,
      ⟨";", false, "", 46, 47, []⟩]⟩

def exportedLimitsTree : Node :=
  ⟨"program", true, "", 0, 48,
    [⟨"comment", true, "", 0, 10, []⟩,
      ⟨"export_statement", true, "", 11, 47,
        [⟨"export", false, "", 11, 17, []⟩, limitsDeclaration]⟩]⟩

theorem hasLines_exportedLimits :
    exportedLimitsTree.IsNested ∧ exportedLimits.NamesCover exportedLimitsTree ∧
      ∀ e ∈ exportedLimits.entities exportedLimitsTree (some 24),
        1 ≤ e.lineFrom ∧ e.lineFrom ≤ e.line ∧ e.line ≤ e.lineTo := by
  have hnested : exportedLimitsTree.IsNested := by decide
  have hnames : exportedLimits.NamesCover exportedLimitsTree :=
    namesCover_of_forall_mem_nodes (by decide)
  exact ⟨hnested, hnames, hasLines_of_mem_entities exportedLimits hnested hnames (some 24)⟩

end SourceFile

end CodeCatalog
