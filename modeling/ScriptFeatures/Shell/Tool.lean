import ScriptFeatures.Shell.Condition
import ScriptFeatures.Shell.Format
import ScriptFeatures.Shell.State

/-!
The tools that scripts call: those that work on files and those that let text
through.
-/

namespace ScriptFeatures.Shell

def brief (e : FileError) : String := (e.message.splitOn " (").headD ""

/-- The options in front of the operands, put together, and the operands. -/
def operands : List String → String × List String
  | "--" :: words => ("", words)
  | word :: words =>
    if word.startsWith "-" && word != "-" then
      let (options, rest) := operands words
      (word ++ options, rest)
    else ("", word :: words)
  | [] => ("", [])

/-! ### Paths -/

def baseName (path : String) : String :=
  match (Path.parts path).reverse.dropWhile (·.isEmpty) with
  | name :: _ => name
  | [] => if path.isEmpty then "" else "/"

def withoutEnding (name ending : String) : String :=
  if name != ending && name.endsWith ending then (name.dropEnd ending.length).toString else name

def directoryName (path : String) : String :=
  let above := ((Path.parts path).reverse.dropWhile (·.isEmpty)).drop 1
  match above.dropWhile (·.isEmpty) with
  | [] => if path.startsWith "/" then "/" else "."
  | parts => "/".intercalate parts.reverse

/-! ### Files -/

def keep (files : FileTree) : Sh Nat := do
  modify ({ · with files })
  return 0

def forPaths (complaint : String) (paths : List String)
    (change : FileTree → String → Except FileError FileTree) : Sh Nat := do
  let mut status := 0
  for path in paths do
    match change (← get).files (toPath path) with
    | .ok files => let _ ← keep files
    | .error e => status ← refuse (complaint ++ " '" ++ path ++ "': " ++ brief e)
  return status

def removeIn (forced recursive : Bool) (t : FileTree) (path : String) : Except FileError FileTree :=
  match t.remove path with
  | .error .notFound => if forced then .ok t else .error .notFound
  | .error .isDirectory => if recursive then .ok (t.removeAll path) else .error .isDirectory
  | done => done

def touchIn (t : FileTree) (path : String) : Except FileError FileTree :=
  if path == nullPath then .ok t
  else match t.read path with
    | .error .notFound => t.write path ByteArray.empty
    | .ok _ | .error .isDirectory => .ok t
    | .error e => .error e

def makeIn (above : Bool) (t : FileTree) (path : String) : Except FileError FileTree :=
  if !above then t.makeDirectory path
  else match t.createDirectories path with
    | (.ok (), t) => .ok t
    | (.error e, _) => .error e

/-- Where something goes that is put at a path: into the directory there. -/
def destination (t : FileTree) (source target : String) : String :=
  if t.isDirectoryAt target then Path.join target (baseName source) else target

def placeOf? (t : FileTree) (path : String) : Option Location := (t.locate path).toOption

def transfer (tool source target : String) : Sh Nat := do
  let t := (← get).files
  let origin := toPath source
  let goal := destination t origin (toPath target)
  match t.read origin with
  | .error .isDirectory =>
    refuse (tool ++ ": -r not specified; omitting directory '" ++ source ++ "'")
  | .error e => refuse (tool ++ ": cannot stat '" ++ source ++ "': " ++ brief e)
  | .ok content =>
    if tool == "cp" && target == nullPath then return 0
    else if placeOf? t goal == placeOf? t origin then
      refuse (tool ++ ": '" ++ source ++ "' and '" ++ ofPath goal ++ "' are the same file")
    else match t.write goal content with
      | .error e =>
        let attempt := if tool == "mv" then "move '" ++ source ++ "' to" else "create regular file"
        refuse (tool ++ ": cannot " ++ attempt ++ " '" ++ ofPath goal ++ "': " ++ brief e)
      | .ok t => keep (if tool == "mv" then (t.remove origin).toOption.getD t else t)

/-- Makes a link. It is a copy of what it leads to at that moment, and no entry
if it leads nowhere; a symbolic link starts at its own directory. -/
def link (symbolic forced : Bool) (source target : String) : Sh Nat := do
  let t := (← get).files
  let goal := destination t (toPath source) (toPath target)
  let origin := if symbolic then Path.join (directoryName goal) (toPath source) else toPath source
  if ((placeOf? t goal).bind t.get?).isSome && !forced then
    refuse ("ln: failed to create " ++ (if symbolic then "symbolic" else "hard") ++ " link '"
      ++ ofPath goal ++ "': File exists")
  else match t.read origin with
    | .error e =>
      if symbolic then return 0
      else refuse ("ln: failed to access '" ++ source ++ "': " ++ brief e)
    | .ok content =>
      match t.write goal content with
      | .ok t => keep t
      | .error e =>
        refuse ("ln: failed to create symbolic link '" ++ ofPath goal ++ "': " ++ brief e)

/-! ### Text -/

def takeInput : Sh String := do
  let input := (← get).input
  modify ({ · with input := "" })
  return input

def readingFault (tool path : String) (e : FileError) : String :=
  if tool == "cat" || tool == "wc" then tool ++ ": " ++ path ++ ": " ++ brief e
  else tool ++ ": cannot open '" ++ path ++ "' for reading: " ++ brief e

def filtered (tool : String) (paths : List String) (f : String → String) : Sh Nat := do
  let mut status := 0
  for path in if paths.isEmpty then ["-"] else paths do
    if path == "-" then emit 1 (f (← takeInput))
    else if path == "/dev/zero" then emit 1 (f (String.ofList (List.replicate 0x100000 '\x00')))
    else if path != nullPath then
      match (← get).files.read (toPath path) with
      | .ok content => emit 1 (f (ofBytes content))
      | .error e => status ← refuse (readingFault tool path e)
  return status

def linesOf (s : String) : List String :=
  match (s.splitOn "\n").reverse with
  | last :: lines => (lines.reverse.map (· ++ "\n")) ++ if last.isEmpty then [] else [last]
  | [] => []

/-- How much `head` and `tail` are asked for: a number of bytes or of lines. -/
structure Amount where
  bytes : Bool := false
  number : Nat := 10

def amountOf (arguments : List String) : Amount × List String :=
  let numberOf (s : String) : Nat := s.toNat?.getD 0
  match arguments with
  | "-c" :: n :: paths => (⟨true, numberOf n⟩, paths)
  | "-n" :: n :: paths => (⟨false, numberOf n⟩, paths)
  | option :: paths =>
    let rest := (option.drop 2).toString
    if option.startsWith "-c" then (⟨true, numberOf rest⟩, paths)
    else if option.startsWith "-n" then (⟨false, numberOf rest⟩, paths)
    else if option.startsWith "-" && option != "-" then
      (⟨false, numberOf (option.drop 1).toString⟩, paths)
    else ({}, option :: paths)
  | [] => ({}, [])

def Amount.front (a : Amount) (s : String) : String :=
  if a.bytes then (s.take a.number).toString else String.join ((linesOf s).take a.number)

def Amount.back (a : Amount) (s : String) : String :=
  if a.bytes then (s.takeEnd a.number).toString
  else let lines := linesOf s; String.join (lines.drop (lines.length - a.number))

def charactersOf (skip : Nat) : List Char → List Char
  | [] => []
  | c :: cs =>
    match skip with
    | skip + 1 => charactersOf skip cs
    | 0 =>
      if c == '\\' then
        let (meant, length) := unescape cs
        meant :: charactersOf length cs
      else match cs with
        | '-' :: last :: _ =>
          (List.range (last.toNat + 1 - c.toNat)).map (fun n => Char.ofNat (c.toNat + n))
            ++ charactersOf 2 cs
        | _ => c :: charactersOf 0 cs

/-- Each character of one set for that of another; the last one goes on. -/
def translated (old new : List Char) (c : Char) : Char :=
  match old.findIdx? (· == c) with
  | some i => new[i]?.getD (new.getLast?.getD c)
  | none => c

def translate (arguments : List String) (s : String) : String :=
  match arguments with
  | ["-d", old] => String.ofList (s.toList.filter (!(charactersOf 0 old.toList).contains ·))
  | [old, new] => s.map (translated (charactersOf 0 old.toList) (charactersOf 0 new.toList))
  | _ => s

def countText (options : String) (s : String) : String :=
  let lines := s.toList.count '\n'
  let words := ((s.split Char.isWhitespace).toList.filter (!·.isEmpty)).length
  let counts := [('l', lines), ('w', words), ('c', s.length)].filter fun (letter, _) =>
    options.isEmpty || options.contains letter
  " ".intercalate (counts.map fun (_, n) => toString n) ++ "\n"

def numbersOf (arguments : List String) : List Int :=
  let upTo (first last : Int) : List Int :=
    (List.range (last + 1 - first).toNat).map fun (n : Nat) => first + Int.ofNat n
  match arguments.map (·.toInt?.getD 0) with
  | [last] => upTo 1 last
  | [first, last] => upTo first last
  | _ => []

/-! ### All tools -/

def tool? (name : String) (arguments : List String) : Option (Sh Nat) :=
  let (options, paths) := operands arguments
  let has (option : Char) : Bool := options.contains option
  match name, paths with
  | "basename", [path] => some do emit 1 (baseName path ++ "\n"); return 0
  | "basename", [path, ending] => some do
    emit 1 (withoutEnding (baseName path) ending ++ "\n")
    return 0
  | "dirname", [path] => some do emit 1 (directoryName path ++ "\n"); return 0
  | "cat", paths => some (filtered name paths id)
  | "head", _ => let (amount, paths) := amountOf arguments; some (filtered name paths amount.front)
  | "tail", _ => let (amount, paths) := amountOf arguments; some (filtered name paths amount.back)
  | "wc", [] => some (filtered name [] (countText options))
  | "tr", _ => some (filtered name [] (translate arguments))
  | "tee", paths => some do
    let input ← takeInput
    emit 1 input
    forPaths "tee:" paths fun t path => t.write path (toBytes input)
  | "seq", _ => some do
    emit 1 (String.join ((numbersOf arguments).map fun n => toString n ++ "\n"))
    return 0
  | "yes", _ => some do
    let line := (if arguments.isEmpty then "y" else " ".intercalate arguments) ++ "\n"
    emit 1 (String.join (List.replicate 0x10000 line))
    return 0
  | "cp", [source, target] | "mv", [source, target] => some (transfer name source target)
  | "ln", [source, target] => some (link (has 's') (has 'f') source target)
  | "rm", paths => some (forPaths "rm: cannot remove" paths (removeIn (has 'f') (has 'r')))
  | "mkdir", paths => some (forPaths "mkdir: cannot create directory" paths (makeIn (has 'p')))
  | "touch", paths => some (forPaths "touch: cannot touch" paths touchIn)
  | "true", _ | "sleep", _ | "chmod", _ | "sync", _ => some (pure 0)
  | "false", _ => some (pure 1)
  | _, _ => none

end ScriptFeatures.Shell
