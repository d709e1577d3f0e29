import ScriptFeatures.Error
import ScriptFeatures.Path
import ScriptFeatures.Text.Blank
import ScriptFeatures.Toml.Document

/-!
The configuration. Every setting has a default, so an empty file is a valid
configuration, and settings of other names are ignored.
-/

namespace ScriptFeatures

open Toml

/-- How the parser is run: `<program> <script> <input> <target>`. -/
structure ParserConfig where
  program : String := "node"
  script : String := "js_ast.js"
  /-- What the parser prints between two documents. -/
  delimiter : String := "##!!**##"
  deriving DecidableEq, Repr

structure Config where
  parser : ParserConfig := {}
  /-- Whether the documents that the parser writes are kept. -/
  retainJson : Bool := false
  workers : Option Nat := none
  /-- The directory of the feature stores. -/
  analysisPath : String := "Analysis"
  deriving DecidableEq, Repr

namespace Config

/-- Whether a configuration says the same as the default one; the script and
the directory of the stores are compared as paths. -/
def isDefault (c : Config) : Bool :=
  let defaults : Config := {}
  Path.same c.parser.script defaults.parser.script
    && Path.same c.analysisPath defaults.analysisPath
    && { c with
        parser := { c.parser with script := defaults.parser.script }
        analysisPath := defaults.analysisPath } == defaults

inductive Fault
  | malformed
  | noProgram
  | noDelimiter
  | noWorkers
  deriving DecidableEq, Repr

def Fault.reason : Fault → String
  | .malformed => "the text does not describe a configuration"
  | .noProgram => "parser.program must not be empty"
  | .noDelimiter => "parser.delimiter must not be empty"
  | .noWorkers => "corpus.workers must be at least 1"

def Fault.toError (f : Fault) : Error := .configuration f.reason

def validate (c : Config) : Except Fault Unit :=
  if (Text.trim c.parser.program).isEmpty then .error .noProgram
  else if c.parser.delimiter.isEmpty then .error .noDelimiter
  else if c.workers = some 0 then .error .noWorkers
  else .ok ()

/-! ### Settings -/

/-- The settings of a section by name. A section may also be a list of its
settings in order. A date is a table that holds no setting. -/
def settings? (names : List String) : Item → Option Table
  | .table _ members => some members
  | .array items => some (names.zip items)
  | .tables elements => some (names.zip (elements.reverse.map (.table .header)))
  | .scalar .date => some []
  | _ => none

def section? (t : Table) (name : String) (names : List String) : Option Table :=
  match t.lookup name with
  | some item => settings? names item
  | none => some []

def setting? (t : Table) (name : String) (default : α) (read : Item → Option α) : Option α :=
  match t.lookup name with
  | some item => read item
  | none => some default

def text? : Item → Option String
  | .string s => some s
  | _ => none

def bool? : Item → Option Bool
  | .bool b => some b
  | _ => none

def count? : Item → Option (Option Nat)
  | .scalar (.integer n) => if 0 ≤ n then some (some n.toNat) else none
  | _ => none

def ofTable? (t : Table) : Option Config := do
  let parser ← section? t "parser" ["program", "script", "delimiter"]
  let extraction ← section? t "extraction" ["retain_json"]
  let corpus ← section? t "corpus" ["workers", "analysis_path"]
  let defaults : Config := {}
  return {
    parser := {
      program := ← setting? parser "program" defaults.parser.program text?
      script := ← setting? parser "script" defaults.parser.script text?
      delimiter := ← setting? parser "delimiter" defaults.parser.delimiter text? }
    retainJson := ← setting? extraction "retain_json" defaults.retainJson bool?
    workers := ← setting? corpus "workers" defaults.workers count?
    analysisPath := ← setting? corpus "analysis_path" defaults.analysisPath text? }

def read (text : String) : Except Fault Config :=
  match (Toml.read? text).bind ofTable? with
  | none => .error .malformed
  | some c =>
    match c.validate with
    | .ok () => .ok c
    | .error f => .error f

end Config

end ScriptFeatures
