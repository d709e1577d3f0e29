import ScriptFeatures.FileTree

/-!
What has to be done to a tree of files so that it becomes another one.
-/

namespace ScriptFeatures

inductive FileChange
  | makeDirectory (path : String)
  | write (path : String) (content : ByteArray)
  | remove (path : String)

namespace FileTree

/-- The path to a place, from the working directory if it is below that. -/
def pathTo (t : FileTree) (place : Location) : String :=
  if t.workingDirectory.isPrefixOf place then
    "/".intercalate (place.drop t.workingDirectory.length)
  else "/" ++ "/".intercalate place

def changeAt? (before : FileTree) (place : Location) (entry : FileEntry) : Option FileChange :=
  match entry, before.get? place with
  | .directory, some .directory => none
  | .directory, _ => some (.makeDirectory (before.pathTo place))
  | .file content, some (.file old) =>
    if content == old then none else some (.write (before.pathTo place) content)
  | .file content, _ => some (.write (before.pathTo place) content)

/-- The files that are gone, then the directories and files that are new or
differ, the oldest first. -/
def changes (before after : FileTree) : List FileChange :=
  let gone := before.entries.filterMap fun (place, entry) =>
    match entry, after.get? place with
    | .file _, none => some (.remove (before.pathTo place))
    | _, _ => none
  gone ++ after.entries.reverse.filterMap fun (place, entry) => changeAt? before place entry

end FileTree

end ScriptFeatures
