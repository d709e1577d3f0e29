import ScriptFeatures.FileTree
import ScriptFeatures.Shell.Bytes

/-!
The conditions of `test`: on texts, on numbers and on files.
-/

namespace ScriptFeatures.Shell

/-- A condition, or why it is none. -/
abbrev Verdict := Except String Bool

def numberIn (s : String) : Except String Int :=
  match s.toInt? with
  | some n => .ok n
  | none => .error ("Illegal number: " ++ s)

def compareNumbers (holds : Int → Int → Bool) (a b : String) : Verdict := do
  return holds (← numberIn a) (← numberIn b)

def testTwo? (a operator b : String) : Option Verdict :=
  match operator with
  | "=" => some (.ok (a == b))
  | "!=" => some (.ok (a != b))
  | "-eq" => some (compareNumbers (· == ·) a b)
  | "-ne" => some (compareNumbers (· != ·) a b)
  | "-lt" => some (compareNumbers (· < ·) a b)
  | "-le" => some (compareNumbers (· ≤ ·) a b)
  | "-gt" => some (compareNumbers (· > ·) a b)
  | "-ge" => some (compareNumbers (· ≥ ·) a b)
  | "-a" => some (.ok (a != "" && b != ""))
  | "-o" => some (.ok (a != "" || b != ""))
  | _ => none

def misplaced (first second : String) : String :=
  if (testTwo? "0" second "0").isSome then second ++ ": argument expected"
  else first ++ ": unexpected operator"

/-- The conditions on one file. Most hold of no file of a tree. -/
def fileOperators : List String :=
  ["-b", "-c", "-d", "-e", "-f", "-g", "-G", "-h", "-k", "-L", "-O", "-p", "-r", "-s", "-S", "-t",
    "-u", "-w", "-x"]

def testOne (t : FileTree) (operator a : String) : Verdict :=
  let entry := (t.locate (toPath a)).toOption.bind t.get?
  match operator, entry with
  | "-n", _ => .ok (a != "")
  | "-z", _ => .ok (a == "")
  | "-d", some .directory | "-x", some .directory | "-f", some (.file _) => .ok true
  | "-s", some (.file content) => .ok (content.size != 0)
  | "-e", _ | "-r", _ | "-w", _ => .ok (a == nullPath || entry.isSome)
  | _, _ =>
    if fileOperators.contains operator then .ok false else .error (misplaced operator a)

def testPlain (t : FileTree) : List String → Verdict
  | [] => .ok false
  | [a] => .ok (a != "")
  | [operator, a] => if operator == "!" then .ok (a == "") else testOne t operator a
  | [a, operator, b] =>
    match testTwo? a operator b with
    | some verdict => verdict
    | none =>
      if a == "!" then (testOne t operator b).map (!·) else .error (a ++ ": unexpected operator")
  | "!" :: words => (testPlain t words).map (!·)
  | a :: _ => .error (a ++ ": unexpected operator")

def splitWords (separator : String) : List String → List (List String)
  | [] => [[]]
  | w :: ws =>
    match splitWords separator ws with
    | [] => [[w]]
    | first :: others => if w == separator then [] :: first :: others else (w :: first) :: others

/-- A condition of up to four words is taken as it stands; a longer one may
join others by `-o`, and those by `-a`. -/
def test (t : FileTree) (words : List String) : Verdict :=
  if words.length ≤ 4 then testPlain t words
  else do
    let verdicts ← (splitWords "-o" words).mapM fun ws => (splitWords "-a" ws).mapM (testPlain t)
    return verdicts.any (·.all id)

end ScriptFeatures.Shell
