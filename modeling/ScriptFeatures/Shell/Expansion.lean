import ScriptFeatures.Shell.Pattern
import ScriptFeatures.Shell.State

/-!
What words stand for when their command runs. What an expansion gives outside
quotes is cut at blanks where several fields are wanted, and a field that is a
pattern then stands for the names that fit it.
-/

namespace ScriptFeatures.Shell

/-- Fields, and the one under way with its last character first. -/
structure Fields where
  finished : List Field := []
  current : Option Field := none

namespace Fields

def add (f : Fields) (quoted : Bool) (s : String) : Fields :=
  { f with current := some ((Field.ofText quoted s).reverse ++ f.current.getD []) }

def cut (f : Fields) : Fields :=
  match f.current with
  | some field => ⟨f.finished ++ [field.reverse], none⟩
  | none => f

def isBlank (c : Char) : Bool := c == ' ' || c == '\t' || c == '\n'

def addCut (f : Fields) (s : String) : Fields :=
  s.toList.foldl (fun f c => if isBlank c then f.cut else f.add false c.toString) f

def put (f : Fields) (cuts quoted : Bool) (s : String) : Fields :=
  if cuts && !quoted then f.addCut s else f.add quoted s

def putAll (f : Fields) (quoted : Bool) : List String → Fields
  | [] => f
  | [a] => f.put true quoted a
  | a :: rest => (f.put true quoted a).cut.putAll quoted rest

def toList (f : Fields) : List Field := f.cut.finished

def one (f : Fields) : Field := f.toList.headD []

end Fields

/-! ### Sums -/

def sumOperators : List (List Char) := [['+', '-'], ['*', '/', '%']]

def calculate (operator : Char) (a b : Int) : Int :=
  match operator with
  | '+' => a + b
  | '-' => a - b
  | '*' => a * b
  | '/' => a.tdiv b
  | _ => a.tmod b

/-- The value of a sum of products; what is no number is a variable. -/
def sumOf (st : State) (cs : List Char) : List (List Char) → Nat → Int
  | [], _ | _, 0 =>
    let name := String.ofList cs
    let value := (st.value? name).getD ""
    (name.toInt?.orElse fun _ => value.toInt?).getD 0
  | operators :: tighter, steps + 1 =>
    match cs.reverse.span (!operators.contains ·) with
    | (last, operator :: first) =>
      if first.isEmpty then sumOf st cs tighter steps
      else calculate operator (sumOf st first.reverse (operators :: tighter) steps)
        (sumOf st last.reverse tighter steps)
    | _ => sumOf st cs tighter steps

def evaluate (st : State) (s : String) : Int :=
  let cs := s.toList.filter fun c => !Fields.isBlank c && c != '$'
  sumOf st cs sumOperators (cs.length + 2)

/-! ### Parts -/

/-- What a change makes of a value: the value or another one, or the argument
in place of it. -/
def Change.apply (change : Change) (name : String) (value : Option String) (argument : Field) :
    Sh (Option String ⊕ Unit) := do
  let isMissing (emptyToo : Bool) : Bool := value.isNone || emptyToo && value == some ""
  match change with
  | .unchanged => return .inl value
  | .length => return .inl (some (toString (value.getD "").length))
  | .orElse emptyToo => return if isMissing emptyToo then .inr () else .inl value
  | .orAssign emptyToo =>
    if !isMissing emptyToo then return .inl value
    modify (·.assign name argument.text)
    return .inl (some argument.text)
  | .orFail emptyToo =>
    if !isMissing emptyToo then return .inl value
    let reason := if emptyToo then "parameter not set or null" else "parameter not set"
    fail none (name ++ ": " ++ if argument.isEmpty then reason else argument.text)
  | .ifGiven emptyToo => return if isMissing emptyToo then .inl none else .inr ()
  | .withoutFront longest => return .inl (some (argument.cutFront longest (value.getD "")))
  | .withoutBack longest => return .inl (some (argument.cutBack longest (value.getD "")))

def dropLineEnds (s : String) : String :=
  String.ofList (s.toList.reverse.dropWhile (· == '\n')).reverse

mutual

/-- Adds what a part stands for, given what prints the output of commands. -/
def expandPart (output : String → Sh String) (cuts : Bool) (f : Fields) : Part → Sh Fields
  | .text quoted s => return f.add quoted s
  | .output quoted commands => do
    return f.put cuts quoted (dropLineEnds (← output commands))
  | .sum quoted expression => do
    let value ← expandParts output false {} expression
    return f.put cuts quoted (toString (evaluate (← get) value.one.text))
  | .parameter quoted name change argument => do
    let text := (← expandParts output false {} argument).one
    let st ← get
    let value ← change.apply name (st.value? name) text
    if cuts && (name == "@" || name == "*" && !quoted) then return f.putAll quoted st.arguments
    match value with
    | .inl (some value) => return f.put cuts quoted value
    | .inl none => return if quoted then f.add true "" else f
    | .inr () => if quoted then return f.add true text.text else expandParts output cuts f argument

def expandParts (output : String → Sh String) (cuts : Bool) (f : Fields) : List Part → Sh Fields
  | [] => return f
  | p :: ps => do expandParts output cuts (← expandPart output cuts f p) ps

end

def expandOne (output : String → Sh String) (w : Word) : Sh Field := do
  return (← expandParts output false {} w).one

/-- The paths in a directory that fit a pattern, or the pattern itself. -/
def pathsFor (t : FileTree) (f : Field) : List String :=
  let (name, directory) := f.reverse.span (·.1 != '/')
  let directory := String.ofList (directory.reverse.map (·.1))
  let found := ((t.list (if directory.isEmpty then "." else toPath directory)).toOption.getD []).map
    (ofPath ·.1)
  let fitting := found.filter fun s =>
    Field.accepts name.reverse s && (!s.startsWith "." || name.getLast?.any (·.1 == '.'))
  if fitting.isEmpty then [f.text]
  else (fitting.mergeSort fun a b => (compare a b).isLE).map (directory ++ ·)

def expandAll (output : String → Sh String) : List Word → Sh (List String)
  | [] => return []
  | w :: ws => do
    let fields := (← expandParts output true {} w).toList
    let files := (← get).files
    let texts := fields.flatMap fun f => if f.isPattern then pathsFor files f else [f.text]
    return texts ++ (← expandAll output ws)

end ScriptFeatures.Shell
