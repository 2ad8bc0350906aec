import CodeCatalog.Chunk.Split
import CodeCatalog.Grammar
import CodeCatalog.Path
import CodeCatalog.Tree
import CodeCatalog.Text.Case
import CodeCatalog.Text.Indent
set_option autoImplicit false

/-!
# Extraction

Walks the syntax tree of a source file and finds the sites of entities.  A site is the
node of a definition, or a single declarator of a declaration; definitions that are
containers are searched in their bodies, and nodes without a rule in all their named
children.  The walk does not fix what happens at a site: it puts together, in the order in
which the sites come, whatever a function makes of each.
-/

namespace CodeCatalog

/-! ## Text rules -/

/-- The greatest length of a signature. -/
def maxSignature : Int := 500

/-- A signature without the white space around it, cut to a length. -/
def shortSignature (limit : Int) (t : Text) : Text :=
  let body := t.trim
  if (body.length : Int) ≤ limit then body else Text.trimEnd (upTo limit body) ++ " ..."

/-- The letters that may stand before the opening quote of a string literal. -/
def literalLetters : String := "rRbBuUfF"

/-- The quotes of string literals, the long ones first. -/
def literalQuotes : List Text := ["\"\"\"", "'''", "\"", "'"]

/-- The content of a string literal; a text that is none stays. -/
def stripLiteral (t : Text) : Text :=
  let body := t.trim.dropWhile (Text.oneOf literalLetters)
  match literalQuotes.find? fun q =>
      q.isPrefixOf body && q.isSuffixOf body && 2 * q.length ≤ body.length with
  | some q => (body.drop q.length).take (body.length - 2 * q.length)
  | none => body

/-- The kind of a binding by its name: names in capitals are constants. -/
def capitalsKind (name : Text) : Text :=
  if name.isUpper then Kind.constant else Kind.variableBinding

/-- A name without the quotes around it. -/
def unquote (name : Text) : Text := name.trimWhile (Text.oneOf "'\"")

/-- A text that is not empty. -/
def Text.nonEmpty? (t : Text) : Option Text := if t.isEmpty then none else some t

/-! ## Scopes -/

/-- Where a node stands: the module and the type around it. -/
structure Scope where
  moduleName : Option Text := none
  typeName : Option Text := none
  deriving DecidableEq, Repr

namespace Scope

/-- The scope inside a module. -/
def insideModule (s : Scope) (name separator : Text) : Scope :=
  match s.moduleName.bind Text.nonEmpty? with
  | some outer => { s with moduleName := some (outer ++ separator ++ name) }
  | none => { s with moduleName := some name }

/-- The scope inside a type. -/
def insideType (s : Scope) (name : Text) : Scope := { s with typeName := some name }

/-- A type is around. -/
def inType (s : Scope) : Bool := (s.typeName.bind Text.nonEmpty?).isSome

end Scope

/-- A wrapper around a declaration, whose documentation and perhaps text the declaration
takes. -/
structure Wrapper where
  place : Place
  keepText : Bool
  deriving Inhabited

/-- Searches a work list of nodes for a node of one of the given types. -/
def searchTypes (types : List String) : List Node → Bool
  | [] => false
  | n :: rest =>
    if types.contains n.type then true
    else searchTypes types (n.children.reverse ++ rest)
termination_by work => Node.sizes work
decreasing_by
  cases n
  simp only [List.unattach_reverse, List.unattach_attach, Node.sizes_append, Node.sizes_reverse,
    Node.sizes, Node.size]
  omega

/-! ## Sites -/

/-- A source file under extraction. -/
structure SourceFile where
  grammar : Grammar
  source : Bytes
  path : Path

/-- A site of an entity: the place of the definition or declarator, the rule that made it a
site, the name in the source, the body if there is one, and the entity. -/
structure Site where
  place : Place
  rule : Rule
  rawName : Text
  body : Option Place
  scope : Scope
  entity : Entity Text

namespace SourceFile

variable (f : SourceFile)

/-- The text that a node covers. -/
def text (n : Node) : Text := n.text f.source

/-- The line on which a node starts. -/
def startLine (n : Node) : Nat := n.startLine f.source

/-- A node of markup is at or below the node. -/
def containsMarkup (n? : Option Node) : Bool :=
  match n? with
  | none => false
  | some n => !f.grammar.markupTypes.isEmpty && searchTypes f.grammar.markupTypes [n]

/-- Collects the documentation comments above a node, nearest first.  `row` is the row of
what stands below, `parts` are the comments collected so far in source order, and `line`
is the line on which the topmost of them starts. -/
def docsFrom (row : Nat) (parts : List Text) (line : Nat) : List Node → List Text × Nat
  | [] => (parts, line)
  | n :: above =>
    if f.grammar.transparentTypes.contains n.type then
      docsFrom (n.startRow f.source) parts line above
    else if !f.grammar.commentTypes.contains n.type then (parts, line)
    else if n.endLine f.source < row then (parts, line)
    else
      let comment := (f.text n).trim
      if f.grammar.docStyle.isDoc comment then
        docsFrom (n.startRow f.source) (comment :: parts) (f.startLine n) above
      else if parts.isEmpty then docsFrom (n.startRow f.source) parts line above
      else (parts, line)

/-- The documentation above a place and the line on which it starts, which is the line of the
node itself if there is none. -/
def docsAbove (p : Place) : Option Text × Nat :=
  let r := f.docsFrom (p.node.startRow f.source) [] (f.startLine p.node) p.before
  ((Text.joinLines r.1).trim.nonEmpty?, r.2)

/-- The documentation string that opens a body. -/
def bodyDocstring (body : Place) : Option Text :=
  match body.node.namedChildren.dropWhile fun n => n.type == "comment" with
  | [] => none
  | n :: _ =>
    if n.type == "expression_statement" then
      match n.namedChildren with
      | [] => none
      | first :: _ =>
        if first.type == "string" then (stripLiteral (f.text first)).flushLeft.nonEmpty? else none
    else none

/-- The signature of a definition: its text up to the body, without the comments and
attributes before it. -/
def signature (n : Node) (body : Option Place) (rule : Rule) : Text :=
  let stop := if rule.wholeSignature then n.stop else (body.map fun b => b.node.start).getD n.stop
  let start :=
    if rule.wholeSignature then n.start
    else ((n.children.find? fun c => !f.grammar.isMarginal c.type).map Node.start).getD n.start
  shortSignature maxSignature (Source.text f.source start stop)

/-- The kind of a function: a method inside a type, and a component if it renders markup. -/
def callableKind (scope : Scope) (body : Option Node) : Text :=
  if scope.inType then Kind.method
  else if f.containsMarkup body then Kind.component
  else Kind.function

/-- The name that a name rule gives. -/
def nameBy (rule : NameRule) (p : Place) : Option Text :=
  match rule with
  | .wholeText => (f.text p.node).trim.nonEmpty?
  | .importClause =>
    let clauses := ["import_clause", "namespace_import", "named_imports", "identifier"]
    match (p.firstOfTypes? clauses).or (p.field? "source") with
    | some c => some (f.text c.node)
    | none => (f.text p.node).trim.nonEmpty?

/-- The name that is shown for an entity. -/
def labelBy (rule : LabelRule) (p : Place) (name : Text) : Text :=
  match rule with
  | .implementation =>
    match p.field? "trait" with
    | some t => "impl " ++ f.text t.node ++ " for " ++ name
    | none => "impl " ++ name
  | .unquoted => unquote name

/-- The kind that a kind rule gives. -/
def kindBy (rule : KindRule) (p : Place) (name : Text) : Text :=
  match rule with
  | .keyword =>
    match p.node.children with
    | c :: _ => if c.type == "const" then Kind.constant else Kind.variableBinding
    | [] => Kind.variableBinding
  | .capitals => capitalsKind name

/-- The context of an entity with a given snippet. -/
def context (scope : Scope) (snippet : Text) : Context Text :=
  ⟨f.path.text, f.path.name, snippet, scope.moduleName, scope.typeName⟩

/-- The site of a definition, if it has a name. -/
def definition? (p : Place) (rule : Rule) (scope : Scope) (wrapper : Option Wrapper) :
    Option Site := do
  let nameNode := p.part? rule.nameFields rule.nameTypes
  let rawName ← (match rule.nameRule with
    | some r => f.nameBy r p
    | none => nameNode.map fun (c : Place) => f.text c.node).bind Text.nonEmpty?
  let body := p.part? rule.bodyFields rule.bodyTypes
  let kind := match rule.kindRule with
    | some r => kindBy r p rawName
    | none =>
      if rule.callable then f.callableKind scope (body.map Place.node) else rule.kind
  let anchor := (wrapper.map Wrapper.place).getD p
  let shown := match wrapper with
    | some w => if w.keepText then w.place.node else p.node
    | none => p.node
  let docs := f.docsAbove anchor
  let docstring :=
    (if f.grammar.bodyDocstring then body.bind f.bodyDocstring else none).or docs.1
  let line := f.startLine ((nameNode.map Place.node).getD p.node)
  return {
    place := p, rule, rawName, body, scope
    entity := {
      name := match rule.labelRule with
        | some r => f.labelBy r p rawName
        | none => rawName
      signature := f.signature p.node body rule
      kind, docstring
      line
      lineFrom := min docs.2 (min (f.startLine shown) line)
      lineTo := shown.endLine f.source
      context := f.context scope (f.text shown)
      embedding := none } }

/-- The scope inside the body of a site, if the site is a container. -/
def innerScope? (s : Site) : Option Scope :=
  s.rule.scope.map fun
    | .moduleScope => s.scope.insideModule s.entity.name f.grammar.separator
    | .typeScope => s.scope.insideType s.rawName

/-- What the declarators of one declaration have in common. -/
structure Declaration where
  place : Place
  rule : Rule
  scope : Scope
  wrapper : Option Wrapper
  docs : Option Text × Nat
  keyword : Option Text
  single : Bool

/-- The name node of a declarator, if it is acceptable. -/
def declaratorName? (rule : Rule) (declarator : Place) : Option Place :=
  (declarator.firstField? rule.nameFields).filter fun c =>
    rule.declaratorNameTypes.isEmpty || rule.declaratorNameTypes.contains c.node.type

/-- The kind and the text before the body of a declarator. -/
def declaratorHead (d : Declaration) (declarator : Place) (name : Text) : Text × Text :=
  let value := (declarator.firstField? d.rule.valueFields).filter fun v =>
    f.grammar.functionLiterals.contains v.node.type
  match value with
  | some v =>
    let stop := ((v.field? "body").map fun b => b.node.start).getD declarator.node.stop
    (f.callableKind d.scope (some v.node), Source.text f.source declarator.node.start stop)
  | none =>
    let kind := match d.rule.kindRule with
      | some r => kindBy r d.place name
      | none => d.rule.kind
    (kind, f.text declarator.node)

/-- The site of a declarator with its name node; the first site of a declaration takes the
documentation. -/
def declaratorSite (d : Declaration) (isFirst : Bool) (declarator nameNode : Place) : Site :=
  let rawName := f.text nameNode.node
  let head := f.declaratorHead d declarator rawName
  let header := match d.keyword with
    | some k => k ++ " " ++ head.2.trim
    | none => head.2
  let shown :=
    if d.single then
      match d.wrapper with
      | some w => if w.keepText then w.place.node else d.place.node
      | none => d.place.node
    else declarator.node
  let line := f.startLine nameNode.node
  { place := declarator, rule := d.rule, rawName, body := none, scope := d.scope
    entity := {
      name := rawName
      signature := shortSignature maxSignature header
      kind := head.1
      docstring := if isFirst then d.docs.1 else none
      line
      lineFrom :=
        if isFirst then min d.docs.2 (min (f.startLine shown) line) else f.startLine shown
      lineTo := shown.endLine f.source
      context := f.context d.scope (f.text shown)
      embedding := none } }

/-- The sites of the declarators that have an acceptable name. -/
def declaratorSites (d : Declaration) (isFirst : Bool) : List Place → List Site
  | [] => []
  | p :: rest =>
    match declaratorName? d.rule p with
    | none => declaratorSites d isFirst rest
    | some nameNode => f.declaratorSite d isFirst p nameNode :: declaratorSites d false rest

/-- The sites of a declaration. -/
def declared (p : Place) (rule : Rule) (scope : Scope) (wrapper : Option Wrapper) : List Site :=
  let declarators := p.namedChildren.filter fun c => rule.declarators.contains c.node.type
  let keyword := match p.node.children with
    | c :: _ => if c.named then none else (f.text c).nonEmpty?
    | [] => none
  let anchor := (wrapper.map Wrapper.place).getD p
  f.declaratorSites
    ⟨p, rule, scope, wrapper, f.docsAbove anchor, keyword, declarators.length == 1⟩
    true declarators

/-! ## The walk -/

/-- What is to be done with a node: pass to a child that the node wraps, emit the sites of a
declaration, emit a definition and search its body, or search the named children. -/
inductive Visit where
  | unwrap (inner : Option Place) (wrapper : Wrapper)
  | declare (sites : List Site)
  | define (site : Site)
  | pass

/-- What is to be done with a node. -/
def visit (p : Place) (scope : Scope) (wrapper : Option Wrapper) : Visit :=
  match f.grammar.rule? p.node.type with
  | none => .pass
  | some rule =>
    if !rule.unwrapFields.isEmpty then
      .unwrap (p.firstField? rule.unwrapFields) (wrapper.getD ⟨p, rule.keepWrapper⟩)
    else if !rule.declarators.isEmpty then
      match f.declared p rule scope wrapper with
      | [] => .pass
      | sites => .declare sites
    else
      match f.definition? p rule scope wrapper with
      | none => .pass
      | some site => .define site

theorem mem_children_of_visit_unwrap {p c : Place} {scope : Scope} {wrapper : Option Wrapper}
    {w : Wrapper} (h : f.visit p scope wrapper = .unwrap (some c) w) : c ∈ p.children := by
  unfold visit at h
  split at h
  · cases h
  · split at h
    · simp only [Visit.unwrap.injEq] at h
      exact Place.mem_children_of_firstField? h.1
    · split at h
      · split at h <;> cases h
      · split at h <;> cases h

theorem mem_children_of_definition? {p b : Place} {rule : Rule} {scope : Scope}
    {wrapper : Option Wrapper} {s : Site} (h : f.definition? p rule scope wrapper = some s)
    (hb : s.body = some b) : b ∈ p.children := by
  unfold definition? at h
  obtain ⟨rawName, _, h⟩ := Option.bind_eq_some_iff.1 h
  cases h
  exact Place.mem_children_of_part? hb

theorem mem_children_of_visit_define {p b : Place} {scope : Scope} {wrapper : Option Wrapper}
    {s : Site} (h : f.visit p scope wrapper = .define s) (hb : s.body = some b) :
    b ∈ p.children := by
  unfold visit at h
  split at h
  · cases h
  · split at h
    · cases h
    · split at h
      · split at h <;> cases h
      · split at h
        · cases h
        · cases h
          exact f.mem_children_of_definition? (by assumption) hb

set_option linter.unusedVariables false in
/-- Walks a tree and puts together what `emit` makes of the sites, in their order. -/
def walk {α : Type} (emit : Site → List α) (p : Place) (scope : Scope)
    (wrapper : Option Wrapper) : List α :=
  match h : f.visit p scope wrapper with
  | .unwrap none _ => []
  | .unwrap (some inner) w => walk emit inner scope (some w)
  | .declare sites => sites.flatMap emit
  | .define s =>
    emit s ++
      match f.innerScope? s, hb : s.body with
      | some inner, some body => body.namedChildren.attach.flatMap fun c => walk emit c.1 inner none
      | _, _ => []
  | .pass => p.namedChildren.attach.flatMap fun c => walk emit c.1 scope none
termination_by sizeOf p.node
decreasing_by
  · exact Place.sizeOf_lt_of_mem_children (f.mem_children_of_visit_unwrap h)
  · have := Place.sizeOf_lt_of_mem_children (f.mem_children_of_visit_define h hb)
    have := Place.sizeOf_lt_of_mem_children (Place.mem_children_of_mem_namedChildren c.2)
    omega
  · exact Place.sizeOf_lt_of_mem_children (Place.mem_children_of_mem_namedChildren c.2)

/-- The scope at the root: a module named for the file. -/
def rootScope : Scope := { moduleName := f.path.stem.nonEmpty? }

/-- The sites of a tree in order. -/
def sites (root : Node) : List Site := f.walk (fun s => [s]) (Place.root root) f.rootScope none

/-- The entities of a tree in order, each split if it exceeds the bound. -/
def entities (root : Node) (bound : Option Int) : List (Entity Text) :=
  f.walk (fun s => s.entity.split bound) (Place.root root) f.rootScope none

end SourceFile

end CodeCatalog
