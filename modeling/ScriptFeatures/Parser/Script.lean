import ScriptFeatures.Parser.Run
import ScriptFeatures.Shell.Run

/-!
A parser that is a script of the shell, `sh <script> <input> <target>`. The
script runs on the tree of files, so that also such a run is a function of its
command and its files. No other program can be started, for a reason that
depends on what its name leads to.
-/

namespace ScriptFeatures.Parser

open Shell

def shellNames : List String := ["sh", "/bin/sh"]

def startFault (t : FileTree) (program : String) : String :=
  match t.locate program with
  | .error e => e.message
  | .ok place =>
    if program.contains '/' && (t.get? place).isSome then "Permission denied (os error 13)"
    else FileError.notFound.message

def depthLimit : Nat := 10000

/-- Runs the shell with what a script asks for at its end, which leaves the
status alone unless it ends the script once more. -/
def runToEnd (arguments : List String) : Sh Unit := do
  let runner := Shell.run depthLimit
  try runShell runner arguments catch
    | .killed signal => throw (.killed signal)
    | _ => pure ()
  let st ← get
  match st.farewell with
  | none => pure ()
  | some commands =>
    runText runner 1 commands
    setStatus st.status

def statusOf : EStateM.Result Leave State Unit → ExitStatus
  | .error (.killed signal) _ =>
    .signal signal ("SIG" ++ ((signals.find? (·.2 == signal)).elim "" (·.1)))
  | .ok _ st | .error _ st => .code st.status

def stateOf : EStateM.Result Leave State Unit → State
  | .ok _ st | .error _ st => st

def runScript (arguments : List String) (t : FileTree) : Outcome × FileTree :=
  let result := (runToEnd (arguments.map ofPath)).run (.start t "sh" [])
  let st := stateOf result
  let stream (n : Nat) : ByteArray := toBytes (st.streams.getD n "")
  (.ended (statusOf result) (stream printed) (stream reported),
    { st.files with workingDirectory := t.workingDirectory })

def script : Parser := fun c t =>
  if (c.program :: c.arguments).any (·.toList.contains '\x00') then
    (.notStarted "nul byte found in provided data", t)
  else if shellNames.contains c.program then runScript c.arguments t
  else (.notStarted (startFault t c.program), t)

end ScriptFeatures.Parser
