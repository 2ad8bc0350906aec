import CodeCatalog.Fault
set_option autoImplicit false

/-!
# Workspaces

The files that a catalog works on: a tree of folders, files and symbolic links, and a
folder in it from which relative paths start.  Links are followed where a path is looked
up; a folder may refuse to be listed.  What may be written is up to the system: it may refuse to
make something or to open a file, and it may have no room for all of a file.
-/

namespace CodeCatalog

/-- An entry of a folder.  The entries of a folder are in no particular order. -/
inductive Entry where
  | file (content : Bytes)
  | link (target : Text)
  | folder (listable : Bool) (entries : List (Text × Entry))
  deriving Inhabited

/-- The path that a value spells. -/
def Value.toPath : Value → Except DataFault Path
  | .text t => .ok (Path.parse t)
  | v => .error (.notPath v.typeName)

/-- A tree of entries and the way to the working folder. -/
structure Workspace where
  root : Entry
  home : List Text

/-- What the system allows of writing. -/
structure Access where
  /-- Why nothing can be made or opened for writing at a way, if that is refused. -/
  refusal? : List Text → Option FileCause := fun _ => none
  /-- The number of bytes for which there is room in a file, if it is bounded. -/
  room? : List Text → Option Nat := fun _ => none

/-- As much of a content as there is room for in the file at a way. -/
def Access.kept (access : Access) (way : List Text) (content : Bytes) : Bytes :=
  match access.room? way with
  | none => content
  | some n => content.take n

/-- The entries of a folder; none for another entry. -/
def Entry.entries : Entry → List (Text × Entry)
  | .folder _ es => es
  | _ => []

/-- Puts an entry at the end of a way through folders. -/
def Entry.put (e : Entry) (way : List Text) (new : Entry) : Entry :=
  match way with
  | [] => new
  | name :: rest =>
    match e with
    | .folder listable es =>
      match es.lookup name with
      | some child =>
        .folder listable (es.map fun m => if m.1 = name then (name, child.put rest new) else m)
      | none => .folder listable (es ++ [(name, Entry.put (.folder true []) rest new)])
    | e => e
termination_by structural way

/-- The entry at the end of a way through folders. -/
def Entry.at? (e : Entry) : List Text → Option Entry
  | [] => some e
  | name :: rest => (e.entries.lookup name).bind fun child => child.at? rest

namespace Workspace

/-- The component of a path that leads to the parent. -/
def parentPart : Text := ".."

/-- The greatest number of links that are followed for one path. -/
def maxLinks : Nat := 40

/-- Where a path leads: the way to it through folders, and the entry there.  The last
component need not exist. -/
structure Located where
  way : List Text
  entry : Option Entry

/-- How the last component of a path is looked up: links are followed or not, or a file is to
be made there unless there is one. -/
inductive Lookup where
  | followed
  | bare
  | made
  deriving DecidableEq, Repr

/-! ## Names -/

/-- A lone surrogate that stands for a byte. -/
def isByte (offset : Fin 2048) : Bool := 0x480 ≤ offset.val && offset.val ≤ 0x4FF

/-- The first run of code points in a path that stand for no bytes. -/
def unencodableFrom? (position : Nat) : Text → Option Utf8.Unencodable
  | [] => none
  | .scalar _ :: rest => unencodableFrom? (position + 1) rest
  | .surrogate offset :: rest =>
    if isByte offset then unencodableFrom? (position + 1) rest
    else some ⟨position, offset, 1 + (rest.takeWhile fun g => !g.isScalar).length⟩

/-- The number of bytes of a name. -/
def byteCount (t : Text) : Nat :=
  t.foldl (fun n g =>
    n + match g with
      | .scalar c => c.utf8Size
      | .surrogate _ => 1) 0

/-- The greatest number of bytes of a component. -/
def maxNameBytes : Nat := 255

/-- The greatest number of bytes of a path. -/
def maxPathBytes : Nat := 4095

/-- Why no path is spelled like a text, if none is. -/
def misspelled? (t : Text) : Option FileCause :=
  match unencodableFrom? 0 t with
  | some u => some (.unencodable u)
  | none =>
    if t.contains (.scalar '\x00') then some .zeroByte
    else if maxPathBytes < byteCount t then some .nameTooLong
    else none

/-! ## Looking up -/

/-- Follows components from the folder at the end of `way`.  The components that ask for a folder
stay at it; a file cannot be made where one of them is last. -/
def locateFrom (root : Entry) (lookup : Lookup) (links : Nat) (way : List Text)
    (parts : List Text) : Except FileCause Located :=
  match parts with
  | [] => .ok ⟨way, root.at? way⟩
  | name :: rest =>
    if name.isEmpty || name = "." then locateFrom root lookup links way rest
    else if name = parentPart then locateFrom root lookup links way.dropLast rest
    else if lookup = .made && rest = [[]] then .error .isDirectory
    else if maxNameBytes < byteCount name then .error .nameTooLong
    else
      match root.at? (way ++ [name]) with
      | none => if rest.isEmpty then .ok ⟨way ++ [name], none⟩ else .error .notFound
      | some (.folder _ _) => locateFrom root lookup links (way ++ [name]) rest
      | some (.file content) =>
        if rest.isEmpty then .ok ⟨way ++ [name], some (.file content)⟩
        else .error .notDirectory
      | some (.link target) =>
        if rest.isEmpty && lookup = .bare then .ok ⟨way ++ [name], some (.link target)⟩
        else
          match links with
          | 0 => .error .tooManyLinks
          | links + 1 =>
            locateFrom root lookup links (if (Path.rootOf target).isEmpty then way else [])
              (Path.targetParts target ++ rest)
termination_by (links, parts.length)

/-- Where a path leads. -/
def locate (w : Workspace) (lookup : Lookup) (p : Path) : Except FileCause Located :=
  match misspelled? p.text with
  | some cause => .error cause
  | none => locateFrom w.root lookup maxLinks (if p.root.isEmpty then w.home else []) p.parts

/-- The entry that a path leads to, if there is one. -/
def entry? (w : Workspace) (p : Path) : Except FileFault (Option Entry) :=
  match w.locate .followed p with
  | .ok l => .ok l.entry
  | .error c => if c.isAbsence then .ok none else .error ⟨c, p.text⟩

/-- The path leads to a folder. -/
def isFolder (w : Workspace) (p : Path) : Except FileFault Bool :=
  (w.entry? p).map fun
    | some (.folder _ _) => true
    | _ => false

/-- The path leads to something. -/
def exists? (w : Workspace) (p : Path) : Except FileFault Bool := (w.entry? p).map Option.isSome

/-- The content of a file. -/
def read (w : Workspace) (p : Path) : Except FileFault Bytes :=
  match w.locate .followed p with
  | .error c => .error ⟨c, p.text⟩
  | .ok l =>
    match l.entry with
    | some (.file content) => .ok content
    | some (.folder _ _) => .error ⟨.isDirectory, p.text⟩
    | _ => .error ⟨.notFound, p.text⟩

/-- Opens a file for writing: the workspace in which it is empty, and the way to it. -/
def create (w : Workspace) (access : Access) (p : Path) :
    Except FileFault (List Text × Workspace) :=
  match w.locate .made p with
  | .error c => .error ⟨c, p.text⟩
  | .ok l =>
    match l.entry with
    | some (.folder _ _) => .error ⟨.isDirectory, p.text⟩
    | _ =>
      match access.refusal? l.way with
      | some c => .error ⟨c, p.text⟩
      | none => .ok (l.way, { w with root := w.root.put l.way (.file []) })

/-- Gives the file at the end of a way its content. -/
def fill (w : Workspace) (way : List Text) (content : Bytes) : Workspace :=
  { w with root := w.root.put way (.file content) }

/-- Makes one folder. -/
def makeFolder (w : Workspace) (access : Access) (p : Path) : Except FileCause Workspace :=
  match w.locate .bare p with
  | .error c => .error c
  | .ok l =>
    match l.entry with
    | some _ => .error .exists
    | none =>
      match access.refusal? l.way with
      | some c => .error c
      | none => .ok { w with root := w.root.put l.way (.folder true []) }

/-- What a folder that could not be made leaves: the workspace, if there is one already. -/
def settleFolder (w : Workspace) (p : Path) (c : FileCause) : Except FileFault Workspace :=
  match w.isFolder p with
  | .ok true => .ok w
  | _ => .error ⟨c, p.text⟩

/-- Makes one folder unless there is one. -/
def ensureFolder (w : Workspace) (access : Access) (p : Path) : Except FileFault Workspace :=
  match w.makeFolder access p with
  | .ok w' => .ok w'
  | .error .notFound => .error ⟨.notFound, p.text⟩
  | .error c => w.settleFolder p c

set_option linter.unusedVariables false in
/-- Makes a folder and the folders above it, as far as they are missing.  The workspace after
a failure holds the folders made before. -/
def ensureFolders (w : Workspace) (access : Access) (p : Path) :
    Except FileFault Unit × Workspace :=
  match w.makeFolder access p, h : p.parts with
  | .ok w', _ => (.ok (), w')
  | .error .notFound, _ :: _ =>
    match ensureFolders w access p.parent with
    | (.ok (), w') =>
      match w'.ensureFolder access p with
      | .ok w'' => (.ok (), w'')
      | .error f => (.error f, w')
    | r => r
  | .error .notFound, [] => (.error ⟨.notFound, p.text⟩, w)
  | .error c, _ => ((w.settleFolder p c).map fun _ => (), w)
termination_by p.parts.length
decreasing_by simp [Path.parent, h]

end Workspace

end CodeCatalog
