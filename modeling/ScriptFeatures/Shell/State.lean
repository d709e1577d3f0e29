import ScriptFeatures.FileTree
import ScriptFeatures.Shell.Bytes
import ScriptFeatures.Shell.Grammar

/-!
What a shell knows while commands run, and what commands do to it. Output goes
to streams, which are told apart by number, or into files.
-/

namespace ScriptFeatures.Shell

inductive Sink
  | stream (n : Nat)
  | file (place : Location)

inductive Leave
  | script
  | killed (signal : Nat)
  | loop (again : Bool) (levels : Nat)
  | function

structure State where
  files : FileTree
  /-- The name of the script and its arguments. -/
  name : String
  arguments : List String
  bindings : List (String × String) := []
  functions : List (String × Command) := []
  sinks : List (Nat × Sink)
  streams : Array String
  /-- What can still be read from the standard input. -/
  input : String := ""
  status : Nat := 0
  /-- The status of what was last run for its output. -/
  outputStatus : Nat := 0
  line : Nat := 0
  /-- How many loops are under way. -/
  loops : Nat := 0
  /-- The file whose commands run in place of those of the script. -/
  sourced : Option String := none
  /-- Whether a failing command ends the script. -/
  strict : Bool := false
  /-- The commands that run in the end. -/
  farewell : Option String := none

def dropped : Nat := 0

def printed : Nat := 1

def reported : Nat := 2

def State.start (files : FileTree) (name : String) (arguments : List String) : State :=
  { files, name, arguments
    sinks := [(1, .stream printed), (2, .stream reported)]
    streams := #["", "", ""] }

abbrev Sh := EStateM Leave State

def State.emit (st : State) (descriptor : Nat) (s : String) : State :=
  match st.sinks.lookup descriptor with
  | none => st
  | some (.stream n) => { st with streams := st.streams.modify n (· ++ s) }
  | some (.file place) =>
    match st.files.get? place with
    | some (.file old) => { st with files := st.files.set place (.file (old ++ toBytes s)) }
    | _ => st

def emit (descriptor : Nat) (s : String) : Sh Unit := modify (·.emit descriptor s)

def setStatus (status : Nat) : Sh Unit := modify ({ · with status })

def refuse (message : String) : Sh Nat := do
  emit 2 (message ++ "\n")
  return 1

/-- Reports a fault in the line under way, in the name of a command of the
shell or of the file that the line is in. -/
def complain (command : Option String) (message : String) : Sh Unit := do
  let st ← get
  let speakers := [st.name, toString st.line] ++ (command.or st.sourced).toList
  emit 2 (String.join (speakers.map (· ++ ": ")) ++ message ++ "\n")

/-- Reports a fault that other commands can follow, and gives its status. -/
def complainWith (status : Nat) (command : Option String) (message : String) : Sh Nat := do
  complain command message
  return status

def fail (command : Option String) (message : String) : Sh α := do
  complain command message
  setStatus 2
  throw .script

/-! ### Parameters -/

def processId : String := "4242"

def State.value? (st : State) (name : String) : Option String :=
  match name with
  | "@" | "*" => some (" ".intercalate st.arguments)
  | "#" => some (toString st.arguments.length)
  | "?" => some (toString st.status)
  | "$" => some processId
  | "0" => some st.name
  | _ =>
    match name.toNat? with
    | some n => st.arguments[n - 1]?
    | none => st.bindings.lookup name

def State.assign (st : State) (name value : String) : State :=
  { st with bindings := (name, value) :: st.bindings.filter (·.1 != name) }

def State.unset (st : State) (name : String) : State :=
  { st with bindings := st.bindings.filter (·.1 != name) }

/-! ### Scopes -/

/-- What remains of a copy of the shell: its effects outside. -/
def State.resume (outer now : State) : State :=
  { outer with
    streams := now.streams
    status := now.status
    files := { now.files with workingDirectory := outer.files.workingDirectory } }

/-- Runs in a copy of the shell; only a signal ends more than that. -/
def inside (act : Sh Unit) : Sh Unit := do
  let outer ← get
  try
    set { outer with farewell := none }
    act
  catch
    | .killed signal =>
      modify outer.resume
      throw (.killed signal)
    | _ => pure ()
  modify outer.resume

/-- What some commands print. Their status is kept apart. -/
def captured (act : Sh Unit) : Sh String := do
  let before ← get
  let n := before.streams.size
  inside do
    modify fun st => { st with
      streams := st.streams.push ""
      sinks := (1, .stream n) :: st.sinks }
    act
  modify fun st => { st with status := before.status, outputStatus := st.status }
  return (← get).streams.getD n ""

/-- Runs with a failing command as an answer, not as the end of the script. -/
def asCondition (act : Sh Unit) : Sh Bool := do
  let strict := (← get).strict
  modify ({ · with strict := false })
  act
  modify ({ · with strict })
  return (← get).status == 0

end ScriptFeatures.Shell
