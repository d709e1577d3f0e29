import ScriptFeatures.FileTree

/-!
The sources of a corpus: the files directly in a directory, in the order of
their names.
-/

namespace ScriptFeatures

def sourcesMessage (directory : String) : String :=
  "Failed to read sample directory " ++ directory

/-- The paths of the files directly in a directory. -/
def collectSources (t : FileTree) (directory : String) : Except FileError (List String) :=
  match t.list directory with
  | .error e => .error e
  | .ok found =>
    let names := found.filterMap fun (name, entry) =>
      match entry with
      | .file _ => some name
      | .directory => none
    .ok ((names.mergeSort fun a b => (compare a b).isLE).map (Path.join directory))

end ScriptFeatures
