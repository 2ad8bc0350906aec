import CodeCatalog.Request
import CodeCatalog.Workspace
set_option autoImplicit false

/-!
# Discovery

Finds source files below a folder by their extensions, and a single file by the end of its
path.  Folders whose name starts with a dot or is excluded are not entered, nor are links
to folders; the folder at which a search starts is always entered.  Files are found in the
order of the components of their paths.
-/

namespace CodeCatalog

/-- The extension of a file name: what follows the last dot, if some other character than a
dot stands before it, in small letters. -/
def walkExtension (name : Text) : Text :=
  match Path.lastDot? name with
  | none => []
  | some i =>
    if (name.take i).all (· == Path.dot) then []
    else Text.lower ((name.drop i).dropWhile (· == Path.dot))

/-- A name that starts with a dot. -/
def isHidden (name : Text) : Bool := name.head? == some Path.dot

/-- What a search by extensions wants and avoids. -/
structure FileQuery where
  wanted : List Text
  excluded : List Text

namespace FileQuery

/-- The query for extensions, which are normalised. -/
def ofExtensions (extensions excluded : List Text) : FileQuery :=
  ⟨normalExtensions extensions, excluded⟩

/-- A folder of this name is entered. -/
def enters (q : FileQuery) (name : Text) : Bool := !(q.excluded.contains name || isHidden name)

/-- A file of this name is found. -/
def wants (q : FileQuery) (name : Text) : Bool :=
  let e := walkExtension name
  !e.isEmpty && q.wanted.contains e

end FileQuery

/-- Results that belong to names, put together in the order of the names; the first fault in
that order counts. -/
def collectByName {α : Type} (results : List (Text × Except FileFault (List α))) :
    Except FileFault (List α) := do
  let sorted := results.mergeSort fun a b => a.1.atMost b.1
  return (← sorted.mapM Prod.snd).flatten

mutual

/-- The files that a query finds in the folder at a path. -/
def Entry.find (q : FileQuery) (dir : Path) : Entry → Except FileFault (List Path)
  | .folder listable es =>
    if listable then collectByName (Entry.findEach q dir es)
    else .error ⟨.denied, dir.text⟩
  | _ => .error ⟨.notDirectory, dir.text⟩

/-- What a query finds in each of the entries of a folder. -/
def Entry.findEach (q : FileQuery) (dir : Path) :
    List (Text × Entry) → List (Text × Except FileFault (List Path))
  | [] => []
  | (name, .file _) :: rest =>
    (name, .ok (if q.wants name then [dir.child name] else [])) :: Entry.findEach q dir rest
  | (name, .link _) :: rest => (name, .ok []) :: Entry.findEach q dir rest
  | (name, .folder listable es) :: rest =>
    (name, if q.enters name then Entry.find q (dir.child name) (.folder listable es) else .ok [])
      :: Entry.findEach q dir rest

end

namespace Workspace

/-- Finds the files below a folder whose extension is among the given ones. -/
def findFiles (w : Workspace) (root : Path) (extensions excluded : List Text) :
    Outcome (List Path) :=
  match w.entry? root with
  | .error f => .error (.file f)
  | .ok (some (.folder listable es)) =>
    ((Entry.folder listable es).find (FileQuery.ofExtensions extensions excluded) root).mapError
      fun f => .walkFailed root.text f
  | .ok _ => .error (.notDirectory root.text)

/-- All components of a path, the root among them. -/
def allParts (p : Path) : List Text := if p.root.isEmpty then p.parts else p.root :: p.parts

/-- The entry of a folder is a folder or leads to one; `way` is the way to the entry. -/
def leadsToFolder (w : Workspace) (way : List Text) : Entry → Bool
  | .folder _ _ => true
  | .file _ => false
  | .link _ =>
    match locateFrom w.root .followed maxLinks [] way with
    | .ok l =>
      match l.entry with
      | some (.folder _ _) => true
      | _ => false
    | .error _ => false

mutual

/-- The files below the folder at `way` whose path ends in the given components; `dir` is the
path of the folder.  A folder that cannot be listed holds none. -/
def endingIn (w : Workspace) (parts : List Text) (way : List Text) (dir : Path) :
    Entry → List Path
  | .folder true es =>
    let own := match parts.getLast? with
      | some name =>
        if es.any (fun m => m.1 == name && !w.leadsToFolder (way ++ [m.1]) m.2)
            && parts.isSuffixOf (allParts (dir.child name)) then [dir.child name]
        else []
      | none => []
    own ++ ((endingInEach w parts way dir es).mergeSort fun a b => a.1.atMost b.1).flatMap Prod.snd
  | _ => []

/-- The same for each folder among the entries that is entered. -/
def endingInEach (w : Workspace) (parts : List Text) (way : List Text) (dir : Path) :
    List (Text × Entry) → List (Text × List Path)
  | [] => []
  | (name, .folder listable es) :: rest =>
    (name,
      if isHidden name || usualExcluded.contains name then []
      else endingIn w parts (way ++ [name]) (dir.child name) (.folder listable es))
      :: endingInEach w parts way dir rest
  | _ :: rest => endingInEach w parts way dir rest

end

/-- The files below a folder whose path ends in the components of a partial path. -/
def matchesOf (w : Workspace) (root : Path) (parts : List Text) : Except FileFault (List Path) :=
  match w.locate .followed root with
  | .ok l =>
    match l.entry with
    | some e => .ok (w.endingIn parts l.way root e)
    | none => .ok []
  | .error c => if c.isSystem then .ok [] else .error ⟨c, root.text⟩

/-- Finds the single file below a folder whose path ends in the components of a partial path;
nothing if there is none or the partial path has no components. -/
def findBySuffix (w : Workspace) (root : Path) (suffix : Text) : Outcome (Option Path) :=
  let parts := allParts (Path.parse suffix)
  if parts.isEmpty then .ok none
  else
    match w.matchesOf root parts with
    | .error f => .error (.file f)
    | .ok [] => .ok none
    | .ok [p] => .ok (some p)
    | .ok found => .error (.ambiguous suffix (found.map Path.text))

/-! ## Names of collections -/

/-- A character that the name of a collection may have. -/
def isNameGlyph : Glyph → Bool
  | .scalar c => c.isAlphanum || c == '_' || c == '-'
  | .surrogate _ => false

/-- Makes a text the name of a collection: other characters become underscores, and one is put
in front unless the name starts with a letter or an underscore. -/
def nameOf (t : Text) : Text :=
  let name := t.map fun g => if isNameGlyph g then g else .scalar '_'
  match name with
  | [] => "codeindex"
  | .scalar c :: _ => if c.isAlpha || c == '_' then name else .scalar '_' :: name
  | _ => .scalar '_' :: name

/-- Goes on from the end of a way by the spelling of components alone. -/
def spellFrom (way : List Text) : List Text → List Text
  | [] => way
  | name :: rest =>
    if name.isEmpty || name = "." then spellFrom way rest
    else if name = parentPart then spellFrom way.dropLast rest
    else spellFrom (way ++ [name]) rest

/-- The way that a path spells out, whatever links are on it. -/
def spelledWay (w : Workspace) (p : Path) : List Text :=
  spellFrom (if p.root.isEmpty then w.home else []) p.parts

/-- The folder above the one that a path without links leads to. -/
def folderAbove (p : Path) : Path :=
  match p.parts.getLast? with
  | none => if p.root.isEmpty then p.child parentPart else p
  | some name => if name = parentPart then p.child parentPart else p.parent

/-- A path with more components at its end. -/
def extended (p : Path) (parts : List Text) : Path := { p with parts := p.parts ++ parts }

/-- Where components lead from a folder when every link is replaced by its target; components that
do not exist are taken as they are.  A link that leads back to itself is kept, and what follows it
is not looked at.  A spelling that no path has is a failure as soon as it is looked up, unless it
is only too long.  `opened` are the links on whose targets this is, of which there are at most
`depth` more. -/
def settleFrom (w : Workspace) (depth : Nat) (opened : List Path) (folder : Path)
    (parts : List Text) : Except FileFault (Bool × Path) :=
  match parts with
  | [] => .ok (true, folder)
  | name :: rest =>
    if name.isEmpty || name = "." then settleFrom w depth opened folder rest
    else if name = parentPart then settleFrom w depth opened (folderAbove folder) rest
    else
      let next := folder.child name
      match misspelled? next.text with
      | some cause =>
        if cause.isSystem then settleFrom w depth opened next rest
        else .error ⟨cause, next.text⟩
      | none =>
        match w.root.at? (w.spelledWay next), depth with
        | some (.link _), 0 => .ok (false, extended next rest)
        | some (.link target), inner + 1 =>
          if opened.contains next then .ok (false, extended next rest)
          else
            match settleFrom w inner (next :: opened)
              (if (Path.rootOf target).isEmpty then folder else ⟨[Path.separator], []⟩)
              (Path.targetParts target) with
            | .error fault => .error fault
            | .ok (true, place) => settleFrom w (inner + 1) opened place rest
            | .ok (false, place) => .ok (false, extended place rest)
        | _, depth => settleFrom w depth opened next rest
termination_by (depth, parts.length)

/-- The number of links within links that are replaced. -/
def maxDepth : Nat := 900

/-- The path of a folder without links. -/
def settle (w : Workspace) (p : Path) : Outcome Path := do
  let start : Path := if p.root.isEmpty then ⟨[], []⟩ else ⟨[Path.separator], []⟩
  match settleFrom w maxDepth [] start p.parts with
  | .error fault => throw (.file fault)
  | .ok (_, place) =>
    let settled : Path := ⟨[Path.separator], w.spelledWay place⟩
    match w.locate .followed settled with
    | .error .tooManyLinks => throw (.linkLoop settled.text.quoted)
    | .error cause => if cause.isSystem then return settled else throw (.file ⟨cause, settled.text⟩)
    | .ok _ => return settled

/-- The name of the collection for a folder, from the name of the folder itself. -/
def collectionName (w : Workspace) (root : Path) : Outcome Text := do
  return nameOf (← w.settle root).name

end Workspace

end CodeCatalog
