import ScriptFeatures.Feature.Frequency
import ScriptFeatures.Json.Printer
import ScriptFeatures.Json.Sequence

/-!
Reports of the features of one source or of one corpus, and the formats they
are written in: JSON on many lines, or a table of tab-separated lines after
the total.
-/

namespace ScriptFeatures

open Json

/-- A value as plain JSON; a double that is not finite has none and is null. -/
def FeatureValue.toJson : FeatureValue → Value
  | .string s => .string s
  | .integer n => .number (.integer n)
  | .double x => if x.isFinite then .number (.double x) else .null
  | .bool b => .bool b
  | .null => .null

structure FeatureCount where
  context : String
  value : Value
  count : Nat

def FeatureCount.of (f : Feature) (count : Nat) : FeatureCount :=
  ⟨f.context, f.value.toJson, count⟩

/-- The features of one source, first occurrences in order. -/
structure Report where
  file : String
  total : Nat
  features : List FeatureCount

/-- In how many sources of a corpus each feature occurs. -/
structure CorpusReport where
  label : String
  files : Nat
  failed : Nat
  features : List FeatureCount

def Report.of (file : String) (m : Frequencies) : Report :=
  ⟨file, m.total, m.toList.map fun (f, n) => .of f n⟩

/-! ### As JSON -/

def natural (n : Nat) : Value := .number (.integer n)

def FeatureCount.toJson (c : FeatureCount) : Value :=
  .object [("context", .string c.context), ("value", c.value), ("count", natural c.count)]

def Report.toJson (r : Report) : Value :=
  .object [("file", .string r.file), ("total", natural r.total),
    ("features", .array (r.features.map FeatureCount.toJson))]

def CorpusReport.toJson (r : CorpusReport) : Value :=
  .object [("label", .string r.label), ("files", natural r.files), ("failed", natural r.failed),
    ("features", .array (r.features.map FeatureCount.toJson))]

def CorpusReport.text (r : CorpusReport) : String := String.ofList (r.toJson.pretty 0)

def FeatureCount.shape : Shape :=
  .record "FeatureCountDto"
    [("context", .string), ("value", .any), ("count", .natural "u64")] []

def Report.shape : Shape :=
  .record "FeatureReportDto"
    [("file", .string), ("total", .natural "usize"), ("features", .list FeatureCount.shape)] []

def FeatureCount.ofJson (v : Value) : FeatureCount :=
  let member name := (v.members.get? name).getD .null
  { context := (member "context").string?.getD ""
    value := member "value"
    count := (member "count").natural?.getD 0 }

def Report.ofJson (v : Value) : Report :=
  let member name := (v.members.get? name).getD .null
  { file := (member "file").string?.getD ""
    total := (member "total").natural?.getD 0
    features := (member "features").items.map .ofJson }

/-- Reads a list of reports that nests less deep than the limit. -/
def Report.readList (limit : Option Nat) (text : String) : Except Json.Error (List Report) :=
  match Json.read limit (.list Report.shape) text with
  | .ok v => .ok (v.items.map .ofJson)
  | .error e => .error e

/-- Reads reports one behind the other, nested less deep than the limit. -/
def Report.readAll (limit : Option Nat) (text : String) : Except Json.Error (List Report) :=
  match Json.readAll limit Report.shape text with
  | .ok vs => .ok (vs.map .ofJson)
  | .error e => .error e

/-! ### Formats -/

inductive ReportFormat
  | json
  | table
  deriving DecidableEq, Repr

def ReportFormat.ofName? (name : String) : Option ReportFormat :=
  match name.toLower with
  | "json" => some .json
  | "text" | "txt" | "tsv" => some .table
  | _ => none

/-- Keeps a text within its column and line. -/
def escapeCell (c : Char) : List Char :=
  match c with
  | '\\' => ['\\', '\\']
  | '\t' => ['\\', 't']
  | '\n' => ['\\', 'n']
  | '\r' => ['\\', 'r']
  | _ => [c]

def valueCell : Value → List Char
  | .string s => s.toList.flatMap escapeCell
  | v => v.compact

def natText (n : Nat) : List Char := Decimal.decimalDigits n

def FeatureCount.line (c : FeatureCount) : List Char :=
  c.context.toList ++ '\t' :: valueCell c.value ++ '\t' :: natText c.count ++ ['\n']

def Report.table (r : Report) : List Char :=
  "total\t".toList ++ natText r.total ++ '\n' :: r.features.flatMap FeatureCount.line

namespace ReportFormat

def render (format : ReportFormat) (r : Report) : List Char :=
  match format with
  | .json => r.toJson.pretty 0
  | .table => r.table

def endLine (cs : List Char) : List Char :=
  if cs.getLast? = some '\n' then cs else cs ++ ['\n']

/-- Reports one after another, each ending in a line break. -/
def renderAll (format : ReportFormat) (rs : List Report) : List Char :=
  rs.flatMap fun r => endLine (format.render r)

end ReportFormat

end ScriptFeatures
