import CodeCatalog.Action
import CodeCatalog.Entity.Record
import CodeCatalog.Value.Reader
import CodeCatalog.Workspace
set_option autoImplicit false

/-!
# Index files

An index file holds a list of entities as a document.  It is opened, and thereby emptied,
before its document is produced, and the pieces of the document are written one by one, so
a document that cannot be completed leaves what was written before, as far as there is room for
it.
-/

namespace CodeCatalog

/-- The bytes of pieces up to the first one that cannot be encoded, and what stopped them. -/
def encodePieces : List Text → Bytes × Option DataFault
  | [] => ([], none)
  | t :: rest =>
    match Utf8.encode? t with
    | .error u => ([], some (.unencodable u))
    | .ok bytes =>
      let r := encodePieces rest
      (bytes ++ r.1, r.2)

/-- The bytes that are written for a document, and what stopped the writing. -/
def documentBytes (v : Value) : Bytes × Option DataFault :=
  let printed := v.print 0
  let r := encodePieces printed.pieces
  (r.1, r.2.or printed.fault)

namespace IndexFile

/-- Makes the folder of a file that is to be written. -/
def prepareFolder (p : Path) (access : Access) (w : Workspace) :
    Except FileFault Unit × Workspace :=
  if p.parent.root.isEmpty && p.parent.parts.isEmpty then (.ok (), w)
  else w.ensureFolders access p.parent

/-- Writes records to a file; folders that are missing are made.  Where there is no room for what
is to be written, that is told whether or not the document could be completed. -/
def write (rs : List Record) (p : Path) (access : Access := {}) : Action Workspace Unit := fun w =>
  match prepareFolder p access w with
  | (.error f, w) => (.error (.writeFailed p.text (.file f)), w)
  | (.ok (), w) =>
    match w.create access p with
    | .error f => (.error (.writeFailed p.text (.file f)), w)
    | .ok (way, w) =>
      let written := documentBytes (Record.document rs)
      let kept := access.kept way written.1
      let w := w.fill way kept
      if kept.length < written.1.length then (.error (.writeFailed p.text .noRoom), w)
      else
        match written.2 with
        | none => (.ok (), w)
        | some f => (.error (.writeFailed p.text (.data f)), w)

/-- The greatest depth to which the values of an index file are nested. -/
def maxNesting : Nat := 985

/-- Reads the document of a file. -/
def readDocument (w : Workspace) (p : Path) : Outcome Value :=
  match w.read p with
  | .error f => .error (.readFailed p.text (if f.cause.isSystem then .file f else .malformed))
  | .ok bytes =>
    match Utf8.decode bytes with
    | .error _ => .error (.readFailed p.text .malformed)
    | .ok cs =>
      match Value.readWithin maxNesting cs with
      | .error .malformed => .error (.readFailed p.text .malformed)
      | .error (.tooDeep type) => .error (.nestedTooDeep type)
      | .ok v => .ok v

/-- Reads the entities of a file. -/
def read (w : Workspace) (p : Path) : Outcome (List Record) := do
  match ← readDocument w p with
  | .list items =>
    (items.mapM Record.ofValue).mapError fun f =>
      if f.isMalformed then .malformedEntity p.text f else .data f
  | _ => throw (.notList p.text)

end IndexFile

end CodeCatalog
