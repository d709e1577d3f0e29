/-!
Paths as texts whose parts are separated by slashes. Empty parts and single
dots say nothing, except that a leading slash makes a path absolute and a
leading dot stays visible. Two paths are the same when their components are.
-/

namespace ScriptFeatures.Path

def splitAt (separator : Char) (cs : List Char) : List (List Char) :=
  match cs with
  | [] => [[]]
  | c :: cs =>
    match splitAt separator cs with
    | [] => [[c]]
    | part :: parts => if c == separator then [] :: part :: parts else (c :: part) :: parts

def parts (path : String) : List String := (splitAt '/' path.toList).map String.ofList

def isSilent (part : String) : Bool := part == "" || part == "."

inductive Component
  | root
  | here
  | up
  | named (name : String)
  deriving DecidableEq, Repr

def Component.ofPart (part : String) : Component := if part == ".." then .up else .named part

def components (path : String) : List Component :=
  let start := match parts path with
    | "" :: _ :: _ => [.root]
    | "." :: _ => [.here]
    | _ => []
  start ++ ((parts path).filter (!isSilent ·)).map .ofPart

def same (p q : String) : Bool := components p == components q

/-- The parts up to the last one that is not silent. -/
def significantParts (path : String) : List String :=
  ((parts path).reverse.dropWhile isSilent).reverse

/-- The paths to what contains the last significant part, the longest first. -/
def ancestors (path : String) : List String :=
  let parts := significantParts path
  (List.range parts.length).reverse.map fun n => "/".intercalate (parts.take n)

/-- The last name of a path, unless the path leads upwards in the end. -/
def fileName? (path : String) : Option String :=
  match (significantParts path).getLast? with
  | some ".." => none
  | name => name

/-- A name before and after its last dot. A dot in front does not count. -/
def splitExtension (name : String) : String × Option String :=
  match name.toList.reverse.span (· != '.') with
  | (_, []) | (_, [_]) => (name, none)
  | (extension, _ :: stem) =>
    (String.ofList stem.reverse, some (String.ofList extension.reverse))

def extension? (path : String) : Option String :=
  (fileName? path).bind fun name => (splitExtension name).2

/-- Gives the last name another extension; what follows that name is dropped. -/
def setExtension (path extension : String) : String :=
  match fileName? path with
  | none => path
  | some name =>
    let directory := (significantParts path).dropLast
    "/".intercalate (directory ++ [(splitExtension name).1 ++ "." ++ extension])

/-- Takes as many characters off the end as the extension has, and sets the
other extension. -/
def withExtension (path extension : String) : String :=
  let old := (extension? path).getD ""
  setExtension (String.ofList (path.toList.take (path.length - old.length))) extension

/-- A path as seen from a directory. -/
def join (directory path : String) : String :=
  if path.startsWith "/" || directory.isEmpty then path
  else if directory.endsWith "/" then directory ++ path
  else directory ++ "/" ++ path

end ScriptFeatures.Path
