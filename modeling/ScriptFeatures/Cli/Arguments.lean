/-!
The command line: which options there are, what may follow them, and what the
arguments ask for. Arguments are read from left to right, so a mistake counts
unless a request for the version or for help comes before it.
-/

namespace ScriptFeatures.Cli

/-! ### Tokens -/

structure Switch where
  long : String
  short : Option Char
  takesValue : Bool
  deriving DecidableEq, Repr

inductive Token
  | flag (name : String)
  | value (name text : String)
  | positional (text : String)
  /-- A word that is no option, where commands are expected, and all that
  follows it. -/
  | command (name : String) (rest : List String)
  | mistake
  deriving DecidableEq, Repr

/-- Whether an argument cannot be the value of an option before it. -/
def looksLikeOption (argument : String) : Bool :=
  argument.startsWith "-" && argument != "-"

def splitEquals (cs : List Char) : String × Option String :=
  match cs.span (· != '=') with
  | (name, []) => (String.ofList name, none)
  | (name, _ :: value) => (String.ofList name, some (String.ofList value))

/-- The value written in one argument with a short option. -/
def attached (cs : List Char) : Option String :=
  match cs with
  | [] => none
  | '=' :: value => some (String.ofList value)
  | value => some (String.ofList value)

/-- The tokens of some arguments. With `commands`, the first word ends the
options. -/
def tokens (switches : List Switch) (commands : Bool) : List String → List Token
  | [] => []
  | argument :: rest =>
    let option (found : Option Switch) (value : Option String) : List Token :=
      match found, value with
      | none, _ => [.mistake]
      | some s, some value => if s.takesValue then
          .value s.long value :: tokens switches commands rest
        else [.mistake]
      | some s, none => if !s.takesValue then .flag s.long :: tokens switches commands rest
        else match rest with
        | value :: rest =>
          if looksLikeOption value then [.mistake]
          else .value s.long value :: tokens switches commands rest
        | [] => [.mistake]
    match argument.toList with
    | ['-', '-'] => rest.map .positional
    | '-' :: '-' :: cs =>
      let (name, value) := splitEquals cs
      option (switches.find? (·.long == name)) value
    | '-' :: c :: cs =>
      let found := switches.find? (·.short == some c)
      if found.any (!·.takesValue) then option found none else option found (attached cs)
    | _ =>
      if commands then [.command argument rest]
      else .positional argument :: tokens switches commands rest

/-! ### Requests -/

structure ExtractRequest where
  file : String
  jsonPath : Option String
  retainJson : Bool
  stream : Bool
  format : String
  output : Option String
  deriving DecidableEq, Repr

structure PreselectRequest where
  directories : List String
  labels : List String
  analysisPath : Option String
  workers : Option Nat
  deriving DecidableEq, Repr

inductive Command
  | extract (r : ExtractRequest)
  | preselect (r : PreselectRequest)
  deriving DecidableEq, Repr

inductive Request
  | version
  | help
  | run (config : Option String) (verbosity : Nat) (command : Command)
  deriving DecidableEq, Repr

def globalSwitches : List Switch :=
  [⟨"config", none, true⟩, ⟨"verbosity", none, true⟩, ⟨"help", some 'h', false⟩]

def topSwitches : List Switch := ⟨"version", some 'V', false⟩ :: globalSwitches

def extractSwitches : List Switch :=
  [⟨"json-path", none, true⟩, ⟨"retain-json", none, false⟩, ⟨"stream", none, false⟩,
    ⟨"format", some 'f', true⟩, ⟨"output", some 'o', true⟩] ++ globalSwitches

def preselectSwitches : List Switch :=
  [⟨"dir", some 'd', true⟩, ⟨"label", some 'l', true⟩, ⟨"analysis-path", none, true⟩,
    ⟨"workers", some 'w', true⟩] ++ globalSwitches

def repeatable : List String := ["dir", "label"]

/-- Options whose value is a path, which is not empty. -/
def pathOptions : List String := ["config", "json-path", "output", "dir", "analysis-path"]

def natural? (cs : List Char) : Option Nat :=
  let digits := match cs with
    | '+' :: ds => ds
    | ds => ds
  if digits.isEmpty || !digits.all Char.isDigit then none
  else some (digits.foldl (fun n c => n * 10 + (c.toNat - '0'.toNat)) 0)

/-- A verbosity from 0 to 5; a sign may stand before it. -/
def verbosity? (text : String) : Option Nat :=
  let n := match text.toList with
    | '-' :: ds => if ds.head? = some '+' then none else (natural? ds).filter (· == 0)
    | cs => natural? cs
  n.filter (· ≤ 5)

def workers? (text : String) : Option Nat := (natural? text.toList).filter (· < 0x10000000000000000)

def acceptsValue (name text : String) : Bool :=
  if pathOptions.contains name then !text.isEmpty
  else if name == "verbosity" then (verbosity? text).isSome
  else if name == "workers" then (workers? text).isSome
  else true

structure Given where
  options : List (String × String)
  words : List String

inductive Reading
  | given (g : Given)
  | version
  | help
  | command (g : Given) (name : String) (rest : List String)
  | mistake

/-- Reads tokens up to the end, or to the first one that settles the request.
There may be `words` many words. -/
def readTokens (words : Nat) (g : Given) : List Token → Reading
  | [] => .given g
  | .mistake :: _ => .mistake
  | .command name rest :: _ => .command g name rest
  | .positional text :: ts =>
    if text.isEmpty || g.words.length ≥ words then .mistake
    else readTokens words { g with words := g.words ++ [text] } ts
  | .flag name :: ts =>
    if name == "version" then .version
    else if name == "help" then .help
    else if (g.options.lookup name).isSome then .mistake
    else readTokens words { g with options := g.options ++ [(name, "")] } ts
  | .value name text :: ts =>
    if !acceptsValue name text then .mistake
    else if !repeatable.contains name && (g.options.lookup name).isSome then .mistake
    else readTokens words { g with options := g.options ++ [(name, text)] } ts

namespace Given

def empty : Given := ⟨[], []⟩

def get? (g : Given) (name : String) : Option String := g.options.lookup name

def has (g : Given) (name : String) : Bool := (g.get? name).isSome

def all (g : Given) (name : String) : List String :=
  (g.options.filter (·.1 == name)).map (·.2)

/-- A stream leaves no document in a file, so the options on it conflict. -/
def extract? (g : Given) : Option ExtractRequest :=
  match g.words with
  | [file] =>
    if g.has "stream" && (g.has "json-path" || g.has "retain-json") then none
    else some {
      file
      jsonPath := g.get? "json-path"
      retainJson := g.has "retain-json"
      stream := g.has "stream"
      format := (g.get? "format").getD "json"
      output := g.get? "output" }
  | _ => none

def preselect? (g : Given) : Option PreselectRequest :=
  if g.has "dir" && g.has "label" then some {
    directories := g.all "dir"
    labels := g.all "label"
    analysisPath := g.get? "analysis-path"
    workers := (g.get? "workers").bind workers? }
  else none

def request (top g : Given) (command : Option Command) : Option Request :=
  let option (name : String) : Option String := (g.get? name).or (top.get? name)
  command.map (.run (option "config") (((option "verbosity").bind verbosity?).getD 2) ·)

end Given

def readCommand (top : Given) (name : String) (rest : List String) : Option Request :=
  let read (switches : List Switch) (words : Nat) (command? : Given → Option Command) :=
    match readTokens words .empty (tokens switches false rest) with
    | .given g => top.request g (command? g)
    | .help => some .help
    | _ => none
  match name with
  | "extract" => read extractSwitches 1 fun g => g.extract?.map .extract
  | "preselect" => read preselectSwitches 0 fun g => g.preselect?.map .preselect
  | "help" =>
    match rest with
    | [] | ["extract"] | ["preselect"] | ["help"] => some .help
    | _ => none
  | _ => none

/-- What the arguments ask for; nothing if they are mistaken. -/
def request? (arguments : List String) : Option Request :=
  match readTokens 0 .empty (tokens topSwitches true arguments) with
  | .version => some .version
  | .help => some .help
  | .command top name rest => readCommand top name rest
  | .given _ | .mistake => none

end ScriptFeatures.Cli
