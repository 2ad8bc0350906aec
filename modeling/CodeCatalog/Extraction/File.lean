import CodeCatalog.Chunk.Checked
import CodeCatalog.Extraction
import CodeCatalog.Grammar.Supported
import CodeCatalog.Workspace
set_option autoImplicit false

/-!
# Source files

The entities of one source file.  The extension of its name chooses the grammar, the file
has to be UTF-8, and a parser has to find a tree in it; a file for which one of these fails
has a fault of its own and no entities.
-/

namespace CodeCatalog

/-- A parser: what it makes of the bytes of a source file for the name of a grammar. -/
abbrev Parser := String → Bytes → ParserReply

/-- The entities of a tree, each split if it exceeds the bound, which may be any value. -/
def SourceFile.entitiesWithin (f : SourceFile) (root : Node) (bound : Value) :
    Except DataFault (List (Entity Text)) :=
  match bound.wholeBound? with
  | some bound => .ok (f.entities root bound)
  | none => Entity.splitAll bound (f.entities root none)

/-- The entities that a parser's reply on a source file stands for. -/
def ParserReply.entities (reply : ParserReply) (f : SourceFile) (bound : Value) :
    Outcome (List (Entity Text)) :=
  match reply with
  | .tree root => .ofData (f.entitiesWithin root bound)
  | .noTree => .error (.noTree f.path.text)
  | .failed report => .error (.parserFailed f.path.text f.grammar.name report)

namespace Workspace

/-- The source file at a path. -/
def source (w : Workspace) (path : Path) : Outcome SourceFile :=
  match Grammar.ofPath? path with
  | none => .error (.unsupported (if path.suffix.isEmpty then path.name else path.suffix))
  | some grammar =>
    match w.read path with
    | .error f => .error (if f.cause.isSystem then .unreadable path.text f else .file f)
    | .ok bytes =>
      match Utf8.decode bytes with
      | .error m => .error (.notUtf8 path.text m)
      | .ok _ => .ok ⟨grammar, bytes, path⟩

/-- The entities of the source file at a path, each split if it exceeds the bound. -/
def extract (w : Workspace) (parser : Parser) (path : Path) (bound : Value) :
    Outcome (List (Entity Text)) := do
  let f ← w.source path
  (parser f.grammar.name f.source).entities f bound

end Workspace

end CodeCatalog
