import ScriptFeatures.Path

/-!
The files and directories that a program sees, as a value. A place is the
list of names that leads to it from the root; relative paths start at the
working directory. Every operation says what it came to and leaves the rest of
the tree as it was.
-/

namespace ScriptFeatures

inductive FileError
  | notFound
  | alreadyExists
  | notDirectory
  | isDirectory
  | nameTooLong
  | zeroInName
  | notText
  deriving DecidableEq, Repr

def FileError.message : FileError → String
  | .notFound => "No such file or directory (os error 2)"
  | .alreadyExists => "File exists (os error 17)"
  | .notDirectory => "Not a directory (os error 20)"
  | .isDirectory => "Is a directory (os error 21)"
  | .nameTooLong => "File name too long (os error 36)"
  | .zeroInName => "file name contained an unexpected NUL byte"
  | .notText => "stream did not contain valid UTF-8"

abbrev Location := List String

inductive FileEntry
  | directory
  | file (content : ByteArray)

structure FileTree where
  workingDirectory : Location
  entries : List (Location × FileEntry)

namespace FileTree

def ofDirectory (place : Location) : FileTree :=
  ⟨place, (List.range place.length).map fun n => (place.take (n + 1), .directory)⟩

/-- What is at a place. The root is a directory. -/
def get? (t : FileTree) (place : Location) : Option FileEntry :=
  if place.isEmpty then some .directory else t.entries.lookup place

def set (t : FileTree) (place : Location) (entry : FileEntry) : FileTree :=
  { t with entries := (place, entry) :: t.entries.filter (·.1 != place) }

def erase (t : FileTree) (place : Location) : FileTree :=
  { t with entries := t.entries.filter (·.1 != place) }

def isDirectory (t : FileTree) (place : Location) : Bool :=
  match t.get? place with
  | some .directory => true
  | _ => false

def nameLimit : Nat := 255

/-- The bytes of a path are fewer than this. -/
def pathLimit : Nat := 4096

/-- Why a text is no path at all. -/
def pathFault? (path : String) : Option FileError :=
  if path.toList.contains '\x00' then some .zeroInName
  else if path.isEmpty then some .notFound
  else if pathLimit ≤ path.utf8ByteSize then some .nameTooLong
  else none

/-- Follows the parts of a path. What a part is looked up in has to be a
directory, also for a part that says nothing. -/
def follow (t : FileTree) (place : Location) : List String → Except FileError Location
  | [] => .ok place
  | part :: parts =>
    match t.get? place with
    | none => .error .notFound
    | some (.file _) => .error .notDirectory
    | some .directory =>
      if Path.isSilent part then t.follow place parts
      else if part == ".." then t.follow place.dropLast parts
      else if nameLimit < part.utf8ByteSize then .error .nameTooLong
      else t.follow (place ++ [part]) parts

def startOf (t : FileTree) (path : String) : Location :=
  if path.startsWith "/" then [] else t.workingDirectory

/-- The place that a path leads to; nothing has to be there. -/
def locate (t : FileTree) (path : String) : Except FileError Location :=
  match pathFault? path with
  | some e => .error e
  | none => t.follow (t.startOf path) (Path.parts path)

def read (t : FileTree) (path : String) : Except FileError ByteArray :=
  match t.locate path with
  | .error e => .error e
  | .ok place =>
    match t.get? place with
    | none => .error .notFound
    | some .directory => .error .isDirectory
    | some (.file content) => .ok content

def readText (t : FileTree) (path : String) : Except FileError String :=
  match t.read path with
  | .error e => .error e
  | .ok content =>
    match String.fromUTF8? content with
    | some text => .ok text
    | none => .error .notText

def write (t : FileTree) (path : String) (content : ByteArray) : Except FileError FileTree :=
  match t.locate path with
  | .error e => .error e
  | .ok place =>
    if t.isDirectory place then .error .isDirectory else .ok (t.set place (.file content))

def remove (t : FileTree) (path : String) : Except FileError FileTree :=
  match t.locate path with
  | .error e => .error e
  | .ok place =>
    match t.get? place with
    | none => .error .notFound
    | some .directory => .error .isDirectory
    | some (.file _) => .ok (t.erase place)

def isDirectoryAt (t : FileTree) (path : String) : Bool :=
  match t.locate path with
  | .ok place => t.isDirectory place
  | .error _ => false

/-- Makes one directory. Slashes at the end do not count, but the name in front
of them has to be that of something new: a dot is none. -/
def makeDirectory (t : FileTree) (path : String) : Except FileError FileTree :=
  match pathFault? path, (Path.parts path).reverse.dropWhile (·.isEmpty) with
  | some e, _ => .error e
  | none, [] => .error .alreadyExists
  | none, name :: above =>
    match t.follow (t.startOf path) (above.reverse ++ ["."]) with
    | .error e => .error e
    | .ok parent =>
      if name == "." || name == ".." then .error .alreadyExists
      else if nameLimit < name.utf8ByteSize then .error .nameTooLong
      else if (t.get? (parent ++ [name])).isSome then .error .alreadyExists
      else .ok (t.set (parent ++ [name]) .directory)

def attempt (t : FileTree) (step : FileTree → Except FileError FileTree) :
    Except FileError Unit × FileTree :=
  match step t with
  | .ok t => (.ok (), t)
  | .error e => (.error e, t)

def ensureDirectory (t : FileTree) (path : String) : Except FileError FileTree :=
  match t.makeDirectory path with
  | .error .alreadyExists => if t.isDirectoryAt path then .ok t else .error .alreadyExists
  | made => made

/-- Makes a directory, given the paths above it from the inside out; those are
made only where the directory cannot be without them. They stay, also when the
directory cannot be made in the end. -/
def createBelow (t : FileTree) (path : String) : List String → Except FileError Unit × FileTree
  | [] => if path.isEmpty then (.ok (), t) else t.attempt (·.ensureDirectory path)
  | parent :: above =>
    match t.attempt (·.ensureDirectory path) with
    | (.error .notFound, t) =>
      match t.createBelow parent above with
      | (.ok (), t) => t.attempt (·.ensureDirectory path)
      | failed => failed
    | made => made

/-- Makes a directory and those above it; one that is there already is left. -/
def createDirectories (t : FileTree) (path : String) : Except FileError Unit × FileTree :=
  t.createBelow path (Path.ancestors path)

/-- What is directly in a directory, by name. -/
def list (t : FileTree) (path : String) : Except FileError (List (String × FileEntry)) :=
  match t.locate path with
  | .error e => .error e
  | .ok place =>
    match t.get? place with
    | none => .error .notFound
    | some (.file _) => .error .notDirectory
    | some .directory => .ok (t.entries.filterMap fun (found, entry) =>
        match found.getLast? with
        | some name => if found.dropLast == place then some (name, entry) else none
        | none => none)

/-- A place in a directory that nothing is at, named after a stem. -/
def freshName (t : FileTree) (directory stem : String) (n : Nat) : Nat → String
  | 0 => Path.join directory (stem ++ toString n)
  | fuel + 1 =>
    let path := Path.join directory (stem ++ toString n)
    match t.locate path with
    | .ok place => if (t.get? place).isSome then t.freshName directory stem (n + 1) fuel else path
    | .error _ => path

def removeAll (t : FileTree) (path : String) : FileTree :=
  match t.locate path with
  | .error _ => t
  | .ok place => { t with entries := t.entries.filter fun (found, _) => !place.isPrefixOf found }

end FileTree

end ScriptFeatures
