import ScriptFeatures.Cli.Run
import ScriptFeatures.FileTree.Change
import ScriptFeatures.Parser.Stored

/-!
The program. Standard input names the files that a run works on, one path a
line; a path that ends in a slash is that of a directory. They are read into a
tree, the run takes place on that tree, and what it changed is written back.
-/

namespace ScriptFeatures.Cli

def databasesPath : String := "databases.json"

def World.ofFiles? (t : FileTree) : Option World :=
  match t.readText databasesPath with
  | .ok text => (Databases.ofText? text).map (⟨t, ·⟩)
  | .error _ => some ⟨t, .empty⟩

def World.toFiles (w : World) : FileTree :=
  if w.databases.entries.isEmpty then w.files
  else (w.files.write databasesPath w.databases.text.toUTF8).toOption.getD w.files

def workingTree : FileTree := .ofDirectory ["work"]

def addFile (t : FileTree) (path : String) (content : ByteArray) : FileTree :=
  let directory := "/".intercalate (Path.parts path).dropLast
  let (_, t) := t.createDirectories directory
  (t.write path content).toOption.getD t

partial def readLines (input : IO.FS.Stream) (lines : List String) : IO (List String) := do
  let line ← input.getLine
  if line.isEmpty then return lines.reverse
  readLines input (String.ofList (line.toList.filter (· != '\n')) :: lines)

def readTree (paths : List String) : IO FileTree :=
  paths.foldlM (fun t (path : String) => do
    if path.endsWith "/" then return (t.createDirectories path).2
    return addFile t path (← IO.FS.readBinFile path)) workingTree

def applyChange : FileChange → IO Unit
  | .makeDirectory path => IO.FS.createDirAll path
  | .write path content => IO.FS.writeBinFile path content
  | .remove path => IO.FS.removeFile path

def reportEnding : Ending → IO Unit
  | .success => pure ()
  | .failure message => IO.eprintln ("Error: " ++ message)
  | .usage => IO.eprintln "usage: jast [--config PATH] [--verbosity 0..5] extract|preselect ..."

/-- Runs on the files that standard input names; gives the exit code. -/
def runOnFiles (arguments : List String) : IO Nat := do
  let before ← readTree (← readLines (← IO.getStdin) [])
  match World.ofFiles? before with
  | none =>
    reportEnding (.failure ("cannot read the databases in " ++ databasesPath))
    return 1
  | some w =>
    let r := run .stored arguments w
    (before.changes r.world.toFiles).forM applyChange
    IO.print r.printed
    reportEnding r.ending
    return r.ending.exitCode

end ScriptFeatures.Cli

def main (arguments : List String) : IO UInt32 := do
  return (← ScriptFeatures.Cli.runOnFiles arguments).toUInt32
