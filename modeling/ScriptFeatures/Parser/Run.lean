import ScriptFeatures.Descriptor
import ScriptFeatures.Feature.Frequency
import ScriptFeatures.FileTree
import ScriptFeatures.Parser.Command
import ScriptFeatures.Parser.Stream
import ScriptFeatures.Text.Utf8

/-!
Running the parser on one source and using what it leaves: printed documents,
or a document in a file. A parser is a function of its command and of the
files, so what is stated here holds of every parser. Whatever goes wrong is
reported with the path of the source.
-/

namespace ScriptFeatures

inductive ExitStatus
  | code (n : Nat)
  | signal (n : Nat) (name : String)
  deriving DecidableEq, Repr

def ExitStatus.text : ExitStatus → String
  | .code n => "exit status: " ++ toString n
  | .signal n name => "signal: " ++ toString n ++ " (" ++ name ++ ")"

/-- What running a command came to. -/
inductive Outcome
  | notStarted (reason : String)
  | ended (status : ExitStatus) (output errors : ByteArray)

abbrev Parser := Command → FileTree → Outcome × FileTree

/-- What the parser printed on a source, if it succeeded. -/
def Outcome.output (program input : String) : Outcome → Except Error ByteArray
  | .notStarted reason => .error (.noTree input ("failed to execute " ++ program ++ ": " ++ reason))
  | .ended (.code 0) output _ => .ok output
  | .ended status _ errors =>
    let detail := Text.trim (Text.Utf8.decodeLossy errors)
    .error (.noTree input (program ++ " exited with " ++ status.text ++
      if detail.isEmpty then "" else ": " ++ detail))

namespace Parser

def run (p : Parser) (c : ParserConfig) (input : String) (target : Option String) (t : FileTree) :
    Except Error ByteArray × FileTree :=
  let (outcome, t) := p (.parse c input target) t
  (outcome.output c.program input, t)

/-! ### Printed documents -/

def blocksOf (c : ParserConfig) (input : String) (output : ByteArray) :
    Except Error (List String) :=
  match String.fromUTF8? output with
  | some text => .ok (Stream.blocks text c.delimiter)
  | none =>
    let fault := (Text.Utf8.fault? output).elim "" (·.message)
    .error (.noTree input ("stdout is not valid UTF-8: " ++ fault))

def streamBlocks (p : Parser) (c : ParserConfig) (input : String) (t : FileTree) :
    Except Error (List String) × FileTree :=
  match p.run c input none t with
  | (.ok output, t) => (blocksOf c input output, t)
  | (.error e, t) => (.error e, t)

/-- The features of a block, unless it is no document or has no features. -/
def blockFeatures? (block : String) : Option Frequencies :=
  match Descriptor.read block with
  | .ok d => d.frequencies.toOption
  | .error _ => none

def extractStream (p : Parser) (c : ParserConfig) (input : String) (t : FileTree) :
    Except Error (List (Option Frequencies)) × FileTree :=
  match p.streamBlocks c input t with
  | (.ok blocks, t) => (.ok (blocks.map blockFeatures?), t)
  | (.error e, t) => (.error e, t)

/-! ### A document in a file -/

/-- The document that is in a file. -/
def documentAt (t : FileTree) (input path : String) : Except Error Descriptor :=
  match t.readText path with
  | .error e => .error (.noTree input ("cannot read " ++ path ++ ": " ++ e.message))
  | .ok text =>
    match Descriptor.read text with
    | .ok d => .ok d
    | .error e => .error (.noTree input e.message)

/-- Has the parser write a document and reads it. The file is removed after
that unless it is to be kept; a failing removal is no failure. How a file is
removed is a parameter, since a system may refuse to. -/
def loadWith (p : Parser) (remove : FileTree → String → Except FileError FileTree)
    (c : ParserConfig) (input path : String) (retain : Bool) (t : FileTree) :
    Except Error Descriptor × FileTree :=
  match p.run c input (some path) t with
  | (.error e, t) => (.error e, t)
  | (.ok _, t) =>
    match documentAt t input path with
    | .error e => (.error e, t)
    | .ok d => (.ok d, if retain then t else (remove t path).toOption.getD t)

def load (p : Parser) (c : ParserConfig) (input path : String) (retain : Bool) (t : FileTree) :
    Except Error Descriptor × FileTree :=
  p.loadWith FileTree.remove c input path retain t

end Parser

/-! ### Documents of many sources -/

/-- Where the documents of many sources go, and whether they are kept. -/
structure Loader where
  directory : String
  retain : Bool
  deriving DecidableEq, Repr

namespace Loader

/-- A loader that keeps the documents in a directory, which is made. -/
def retaining (directory : String) (t : FileTree) : Except Error Loader × FileTree :=
  match t.createDirectories directory with
  | (.ok (), t) => (.ok ⟨directory, true⟩, t)
  | (.error e, t) => (.error (.file directory e.message), t)

def scratchParent : String := "/tmp"

/-- A loader with a directory of its own, which is made and from which every
document is removed after it has been read. -/
def scratch (t : FileTree) : Except Error Loader × FileTree :=
  let directory := t.freshName scratchParent "jast-ast-" 0 t.entries.length
  match t.createDirectories directory with
  | (.ok (), t) => (.ok ⟨directory, false⟩, t)
  | (.error e, t) => (.error (.file scratchParent e.message), t)

def release (l : Loader) (t : FileTree) : FileTree :=
  if l.retain then t else t.removeAll l.directory

def jsonPath (l : Loader) (input : String) : String := jsonPathIn l.directory input

def provide (l : Loader) (p : Parser) (c : ParserConfig) (t : FileTree) (input : String) :
    Except Error Descriptor × FileTree :=
  p.load c input (l.jsonPath input) l.retain t

end Loader

end ScriptFeatures
