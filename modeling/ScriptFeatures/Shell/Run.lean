import ScriptFeatures.Shell.Expansion
import ScriptFeatures.Shell.Reader
import ScriptFeatures.Shell.Tool

/-!
Running commands. What runs the commands inside a command is a parameter
everywhere but in `run`, which counts how deep they may be nested.
-/

namespace ScriptFeatures.Shell

abbrev Runner := Command → Sh Unit

def runLines (inner : Runner) (s : Source) : Nat → Sh Unit
  | 0 => return
  | steps + 1 => do
    if s.rest.isEmpty then return
    match readLine s with
    | .ok (c, s) =>
      inner c
      runLines inner s steps
    | .error fault =>
      modify ({ · with line := fault.line })
      fail none fault.message

def runText (inner : Runner) (first : Nat) (text : String) : Sh Unit := do
  let line := (← get).line
  runLines inner ⟨text.toList, first⟩ (text.length + 1)
  modify ({ · with line })

def outputOf (inner : Runner) (commands : String) : Sh String := do
  captured (runText inner (← get).line commands)

/-- Runs a text in this shell, under another name in reports. -/
def runNamed (inner : Runner) (name text : String) : Sh Nat := do
  let outer := (← get).sourced
  modify ({ · with status := 0, sourced := some name })
  runText inner 1 text
  modify ({ · with sourced := outer })
  return (← get).status

/-! ### Redirections -/

def openingFault (makes : Bool) (e : FileError) : String :=
  match e with
  | .notFound | .notDirectory => if makes then "Directory nonexistent" else "No such file"
  | e => brief e

def connect (descriptor : Nat) (sink : Sink) : Sh Bool := do
  modify fun st => { st with sinks := (descriptor, sink) :: st.sinks }
  return true

def openSink (descriptor : Nat) (path : String) (appends : Bool) : Sh Bool := do
  if path == nullPath then return ← connect descriptor (.stream dropped)
  let st ← get
  let old := (st.files.read (toPath path)).toOption.getD ByteArray.empty
  match st.files.write (toPath path) (if appends then old else ByteArray.empty),
      st.files.locate (toPath path) with
  | .ok files, .ok place =>
    set { st with files }
    connect descriptor (.file place)
  | .error e, _ | _, .error e =>
    complain none ("cannot create " ++ path ++ ": " ++ openingFault true e)
    return false

/-- Does what a redirection says; tells whether it could. -/
def Redirect.apply (inner : Runner) (r : Redirect) : Sh Bool := do
  let target := (← expandOne (outputOf inner) r.target).text
  match r.kind with
  | .document =>
    modify ({ · with input := target })
    return true
  | .copy =>
    if target == "-" then
      modify fun st => { st with sinks := st.sinks.filter (·.1 != r.descriptor) }
      return true
    let sinks := (← get).sinks
    match target.toNat?.bind (sinks.lookup ·) with
    | some sink => connect r.descriptor sink
    | none =>
      complain none (target ++ ": Bad file descriptor")
      return false
  | .read =>
    let files := (← get).files
    match if target == nullPath then .ok ByteArray.empty else files.read (toPath target) with
    | .ok content =>
      modify ({ · with input := ofBytes content })
      return true
    | .error .isDirectory =>
      modify ({ · with input := "" })
      return true
    | .error e =>
      complain none ("cannot open " ++ target ++ ": " ++ openingFault false e)
      return false
  | .write => openSink r.descriptor target false
  | .append => openSink r.descriptor target true

def applyAll (inner : Runner) : List Redirect → Sh Bool
  | [] => return true
  | r :: rs => do
    if ← r.apply inner then applyAll inner rs else return false

/-- Runs with redirections, which do not last. If one of them fails nothing
runs, and for some commands the script ends. -/
def redirected (inner : Runner) (isFatal : Bool) (redirects : List Redirect) (act : Sh Unit) :
    Sh Unit := do
  if redirects.isEmpty then act
  else
    let st ← get
    try
      if ← applyAll inner redirects then act
      else
        setStatus 2
        if isFatal then throw .script
    finally
      modify ({ · with sinks := st.sinks, input := st.input })

/-! ### Commands of the shell itself -/

def signals : List (String × Nat) :=
  [("HUP", 1), ("INT", 2), ("QUIT", 3), ("ILL", 4), ("TRAP", 5), ("ABRT", 6), ("BUS", 7),
    ("FPE", 8), ("KILL", 9), ("USR1", 10), ("SEGV", 11), ("USR2", 12), ("PIPE", 13), ("ALRM", 14),
    ("TERM", 15), ("XCPU", 24), ("XFSZ", 25), ("VTALRM", 26), ("PROF", 27), ("SYS", 31)]

def signalOf? (name : String) : Option Nat := name.toNat?.orElse fun _ => signals.lookup name

/-- Ends this process, if it is meant and the signal ends processes. -/
def kill (arguments : List String) : Sh Nat := do
  let (signal?, targets) := match arguments with
    | "-s" :: name :: targets => (signalOf? name, targets)
    | word :: targets =>
      if word.startsWith "-" then (signalOf? (word.drop 1).toString, targets)
      else (some 15, word :: targets)
    | [] => (some 0, [])
  match signal? with
  | none => complainWith 2 (some "kill") ("Illegal option " ++ (arguments.headD "").take 2)
  | some signal =>
    if !targets.contains processId then
      return ← complainWith 1 (some "kill") "No such process\n"
    if signals.any (·.2 == signal) then throw (.killed signal)
    return 0

def numberLimit : Nat := 0x7fffffff

def statusIn (name : String) (arguments : List String) : Sh Nat := do
  match arguments with
  | [] => return (← get).status
  | a :: _ =>
    match a.toNat? with
    | some n =>
      if n ≤ numberLimit && a.toList.all Char.isDigit then return n % 256
      fail (some name) ("Illegal number: " ++ a)
    | none => fail (some name) ("Illegal number: " ++ a)

/-- Sets variables to the words of a line; the last one takes what is left. -/
def assignWords (line : List Char) : List String → Sh Unit
  | [] => return
  | [name] =>
    let value := (line.dropWhile Fields.isBlank).reverse.dropWhile Fields.isBlank
    modify (·.assign name (String.ofList value.reverse))
  | name :: names => do
    let (word, line) := (line.dropWhile Fields.isBlank).span (!Fields.isBlank ·)
    modify (·.assign name (String.ofList word))
    assignWords line names

def readInto (names : List String) : Sh Nat := do
  let input := (← get).input.toList
  let line := input.takeWhile (· != '\n')
  modify ({ · with input := String.ofList (input.drop (line.length + 1)) })
  assignWords line names
  return if input.length == line.length then 1 else 0

def changeDirectory (path : String) : Sh Nat := do
  let st ← get
  match st.files.locate (toPath path) with
  | .ok place =>
    if st.files.isDirectory place then
      set { st with files := { st.files with workingDirectory := place } }
      return 0
    complainWith 2 (some "cd") ("can't cd to " ++ path)
  | .error _ => complainWith 2 (some "cd") ("can't cd to " ++ path)

def say (p : Printed) : Sh Nat := do
  (p.complaints ++ p.failure.toList).forM (complain (some "printf"))
  emit 1 p.text
  return if p.failure.isSome then 2 else if p.complaints.isEmpty then 0 else 1

def judge (name : String) (words : List String) : Sh Nat := do
  match test (← get).files words with
  | .ok holds => return if holds then 0 else 1
  | .error message => complainWith 2 (some name) message

def assignAll (words : List String) : Sh Nat := do
  for word in words do
    match word.splitOn "=" with
    | name :: value@(_ :: _) => modify (·.assign name ("=".intercalate value))
    | _ => pure ()
  return 0

def setOptions : List String → Sh Nat
  | [] => return 0
  | "--" :: words => do
    modify ({ · with arguments := words })
    return 0
  | word :: words => do
    if word.startsWith "-" then
      if word.contains 'e' then modify ({ · with strict := true })
      setOptions words
    else if word.startsWith "+" then
      if word.contains 'e' then modify ({ · with strict := false })
      setOptions words
    else
      modify ({ · with arguments := word :: words })
      return 0

/-- The commands that keep what is assigned in front of them, and that end the
script when a redirection fails. -/
def isSpecial (name : String) : Bool :=
  [":", ".", "exit", "return", "break", "continue", "shift", "set", "unset", "eval", "exec",
    "export", "readonly", "trap"].contains name

/-- Runs a file in place of the commands under way, or a text of commands. -/
def runShell (inner : Runner) (arguments : List String) : Sh Unit := do
  match arguments with
  | "-c" :: text :: rest =>
    modify ({ · with name := rest.headD "sh", arguments := rest.drop 1 })
    runText inner 1 text
  | path :: rest =>
    match (← get).files.read (toPath path) with
    | .error e =>
      modify ({ · with name := "sh", line := 0 })
      fail none ("cannot open " ++ path ++ ": " ++ openingFault false e)
    | .ok content =>
      modify ({ · with name := path, arguments := rest })
      runText inner 1 (ofBytes content)
  | [] => runText inner 1 (← takeInput)

def runFile (inner : Runner) (path : String) : Sh Nat := do
  if !path.contains '/' then fail (some ".") (path ++ ": not found")
  let outer := (← get).sourced
  match (← get).files.read (toPath path) with
  | .error e => fail (some ".") ("cannot open " ++ path ++ ": " ++ openingFault false e)
  | .ok content =>
    try runNamed inner path (ofBytes content) catch
      | .function =>
        modify ({ · with sourced := outer })
        return (← get).status
      | leave => throw leave

def callFunction (inner : Runner) (body : Command) (arguments : List String) : Sh Nat := do
  let outer ← get
  modify ({ · with arguments, loops := 0 })
  try inner body catch
    | .function => pure ()
    | leave => throw leave
  modify ({ · with arguments := outer.arguments, loops := outer.loops })
  return (← get).status

def notFound (name : String) : Sh Nat := do
  let t := (← get).files
  if name.contains '/' && ((placeOf? t (toPath name)).bind t.get?).isSome then
    complainWith 126 none (name ++ ": Permission denied")
  else complainWith 127 none (name ++ ": not found")

def perform (inner : Runner) (steps : Nat) : List String → Sh Nat
  | [] => return 0
  | name :: arguments => do
    match (← get).functions.lookup name, name, arguments with
    | some body, _, _ => callFunction inner body arguments
    | none, ":", _ => return 0
    | none, "exit", _ => do
      setStatus (← statusIn name arguments)
      throw .script
    | none, "return", _ => do
      setStatus (← statusIn name arguments)
      throw .function
    | none, "break", _ | none, "continue", _ => do
      setStatus 0
      if (← get).loops == 0 then return 0
      throw (.loop (name == "continue") (natOf (arguments.headD "1").toList))
    | none, "shift", _ => do
      let n := natOf (arguments.headD "1").toList
      let st ← get
      if st.arguments.length < n then fail (some name) "can't shift that many"
      set { st with arguments := st.arguments.drop n }
      return 0
    | none, "set", _ => setOptions arguments
    | none, "export", _ | none, "readonly", _ | none, "local", _ => assignAll arguments
    | none, "unset", _ => do
      arguments.forM fun name => modify (·.unset name)
      return 0
    | none, "trap", [commands, _] => do
      modify ({ · with farewell := some commands })
      return 0
    | none, "trap", _ | none, "wait", _ | none, "umask", _ | none, "ulimit", _ => return 0
    | none, "eval", _ => runNamed inner name (" ".intercalate arguments)
    | none, ".", path :: _ => runFile inner path
    | none, "cd", _ => changeDirectory (arguments.headD "/")
    | none, "read", "-r" :: names => readInto names
    | none, "read", names => readInto names
    | none, "echo", _ => do
      emit 1 (echoed arguments)
      return 0
    | none, "printf", "--" :: format :: rest => say (printFormat format rest)
    | none, "printf", format :: rest => say (printFormat format rest)
    | none, "printf", [] => complainWith 2 (some name) "usage: printf format [arg ...]"
    | none, "test", _ => judge name arguments
    | none, "[", _ =>
      if arguments.getLast? != some "]" then complainWith 2 (some name) "missing ]"
      else judge name arguments.dropLast
    | none, "kill", _ => kill arguments
    | none, "sh", _ => do
      try inside (runShell inner arguments) catch
        | .killed signal => setStatus (128 + signal)
        | leave => throw leave
      return (← get).status
    | none, "command", _ | none, "exec", _ =>
      match steps, arguments with
      | _, [] | 0, _ => return 0
      | steps + 1, _ => do
        if name == "command" then return ← perform inner steps arguments
        modify ({ · with sourced := some name })
        setStatus (← perform inner steps arguments)
        throw .script
    | none, _, _ =>
      match tool? name arguments with
      | some act => act
      | none => notFound name

/-! ### Commands -/

/-- Ends the script after a failing command where that is asked for. -/
def checkStatus : Sh Unit := do
  let st ← get
  if st.strict && st.status != 0 then throw .script

def runSimple (inner : Runner) (line : Nat) (assigned : List (String × Word)) (words : List Word)
    (redirects : List Redirect) : Sh Unit := do
  modify ({ · with line, outputStatus := 0 })
  let fields ← expandAll (outputOf inner) words
  let assign : Sh Unit := assigned.forM fun (name, word) => do
    let value := (← expandOne (outputOf inner) word).text
    modify (·.assign name value)
  let isFatal := isSpecial (fields.headD "")
  if fields.isEmpty then
    redirected inner false redirects do
      assign
      setStatus (← get).outputStatus
  else if fields == ["exec"] then
    let applied ← applyAll inner redirects
    setStatus (if applied then 0 else 2)
    if !applied then throw .script
  else
    let scope := (← get).bindings
    redirected inner isFatal redirects do
      assign
      setStatus (← perform inner fields.length fields)
    if !assigned.isEmpty && !isFatal then modify ({ · with bindings := scope })
  checkStatus

def runBody (inner : Runner) (body : Command) : Sh Bool := do
  let loops := (← get).loops
  modify ({ · with loops := loops + 1 })
  try
    inner body
    return true
  catch
    | .loop again (levels + 2) =>
      if loops == 0 then return again else throw (.loop again (levels + 1))
    | .loop again _ => return again
    | leave => throw leave
  finally
    modify ({ · with loops })

def roundLimit : Nat := 1000000

def runLoop (inner : Runner) (untilHolds : Bool) (condition body : Command) : Sh Unit := do
  let mut last := 0
  for _ in [0:roundLimit] do
    let holds ← asCondition (inner condition)
    if holds == untilHolds then break
    let goesOn ← runBody inner body
    last := (← get).status
    if !goesOn then break
  setStatus last

def runEach (inner : Runner) (name : String) (body : Command) : List String → Sh Unit
  | [] => return
  | value :: values => do
    modify (·.assign name value)
    if ← runBody inner body then runEach inner name body values

def runChoice (inner : Runner) (subject : String) : List (List Word × Command) → Sh Unit
  | [] => setStatus 0
  | (patterns, body) :: arms => do
    let found ← patterns.anyM fun pattern => do
      return (← expandOne (outputOf inner) pattern).accepts subject
    if !found then runChoice inner subject arms
    else if body.isEmpty then setStatus 0
    else inner body

def step (inner : Runner) : Runner
  | .empty => return
  | .simple line assigned words redirects => runSimple inner line assigned words redirects
  | .redirected line body redirects => do
    modify ({ · with line })
    redirected inner false redirects (inner body)
  | .sequence first second => do
    inner first
    inner second
  | .both first second => do
    if ← asCondition (inner first) then inner second
  | .either first second => do
    if !(← asCondition (inner first)) then inner second
  | .negated body => do
    setStatus (if ← asCondition (inner body) then 1 else 0)
  | .pipe first second => do
    let printed ← captured (inner first)
    inside do
      modify ({ · with input := printed })
      inner second
    checkStatus
  | .subshell body => do
    inside (inner body)
    checkStatus
  | .branch condition yes no => do
    if ← asCondition (inner condition) then inner yes
    else if no.isEmpty then setStatus 0
    else inner no
  | .loop untilHolds condition body => runLoop inner untilHolds condition body
  | .each line name values body => do
    modify ({ · with line })
    let values ← match values with
      | some words => expandAll (outputOf inner) words
      | none => pure (← get).arguments
    if values.isEmpty then setStatus 0
    runEach inner name body values
  | .choice line subject arms => do
    modify ({ · with line })
    let subject := (← expandOne (outputOf inner) subject).text
    runChoice inner subject arms
  | .define name body => do
    modify fun st => { st with functions := (name, body) :: st.functions }
    setStatus 0

/-- Runs a command, in which others may be nested that deep. -/
def run : Nat → Runner
  | 0, _ => throw .script
  | depth + 1, c => step (run depth) c

end ScriptFeatures.Shell
