import CodeCatalog.Command
set_option autoImplicit false

/-!
# The program

Runs one command on the working folder: the folder is read, the command is run on it, and
the files that the command wrote are written back.  Parsers, the embedding service and the
vector server are other people's programs.  This one runs without them: no parser finds a
tree, the service cannot be reached, and the vector server starts empty and ends with the
command.
-/

namespace CodeCatalog

/-- An embedding service that cannot be reached. -/
def unreachableService : Endpoint Unit Double :=
  ⟨fun s _ _ _ => ⟨s, Double.zero, .error .unreachable⟩⟩

/-- The reply of a parser that is not there. -/
def missingParser : Parser := fun _ _ => .failed "no parser"

mutual

/-- The files of an entry at the end of a way, with their contents. -/
def Entry.files (way : List Text) : Entry → List (List Text × Bytes)
  | .file content => [(way, content)]
  | .link _ => []
  | .folder _ es => Entry.filesOfEach way es

/-- The files of the entries of a folder. -/
def Entry.filesOfEach (way : List Text) : List (Text × Entry) → List (List Text × Bytes)
  | [] => []
  | (name, e) :: rest => Entry.files (way ++ [name]) e ++ Entry.filesOfEach way rest

end

/-- The files that one entry has and another one lacks or has with other contents. -/
def Entry.changes (before after : Entry) : List (List Text × Bytes) :=
  (after.files []).filter fun f =>
    match before.at? f.1 with
    | some (.file content) => content != f.2
    | _ => true

/-- The path of an entry below the working folder, as the system spells it. -/
def spelled (way : List Text) : String := ((Text.joinWith [Path.separator] way).toString?).getD ""

/-- The target of a link below a folder, whose own path becomes the root. -/
def linkTarget (base target : String) : Text :=
  if base.isPrefixOf target then (target.drop base.length).toString else target

/-- Reads the entry of a folder. -/
partial def readEntry (d : IO.FS.DirEntry) : IO (Text × Entry) := do
  let name : Text := d.fileName
  match (← d.path.symlinkMetadata).type with
  | .symlink =>
    try
      let base := (← IO.currentDir).toString
      return (name, .link (linkTarget base (← IO.FS.realPath d.path).toString))
    catch _ => return (name, .link [])
  | .dir =>
    try
      let es ← (← d.path.readDir).mapM readEntry
      return (name, .folder true es.toList)
    catch _ => return (name, .folder false [])
  | _ =>
    try return (name, .file (← IO.FS.readBinFile d.path).toList) catch _ => return (name, .file [])

/-- Reads the working folder. -/
def readWorkspace : IO Entry := do
  let es ← (← (← IO.currentDir).readDir).mapM readEntry
  return .folder true es.toList

/-- Writes a file below the working folder. -/
def writeFile (f : List Text × Bytes) : IO Unit := do
  IO.FS.createDirAll (spelled ([Text.ofString "."] ++ f.1.dropLast))
  IO.FS.writeBinFile (spelled f.1) ⟨f.2.toArray⟩

/-- Reads the variables of the environment that settings come from. -/
def readEnvironment : IO Environment := do
  let entries ← Settings.sources.mapM fun v => do
    return (v.1, (← IO.getEnv ((v.1.toString?).getD "")).map Text.ofString)
  return entries.filterMap fun e => e.2.map fun t => (e.1, t)

/-- Writes a text to a stream. -/
def writeText (stream : IO.FS.Stream) (t : Text) : IO Unit := do
  stream.write ⟨(Utf8.encode t).toArray⟩
  stream.flush

end CodeCatalog

open CodeCatalog in
/-- Runs the command that the arguments spell. -/
def main (args : List String) : IO UInt32 := do
  let folder ← readWorkspace
  let surroundings : Surroundings Unit :=
    { files := ⟨folder, []⟩
      environment := ← readEnvironment
      parser := missingParser
      service := unreachableService
      serviceState := ()
      server := {}
      console := .utf8
      draw := Double.zero }
  let ran := Command.main (args.map Text.ofString) surroundings
  (folder.changes ran.2.files.root).forM writeFile
  match ran.1 with
  | .ok reply =>
    writeText (← IO.getStdout) reply.output
    writeText (← IO.getStderr) reply.report
    return UInt32.ofNat reply.status
  | .error f =>
    writeText (← IO.getStderr) (f.message ++ [Glyph.newline])
    return 1
