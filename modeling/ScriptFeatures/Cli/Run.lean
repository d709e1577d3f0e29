import ScriptFeatures.Cli.Arguments
import ScriptFeatures.Corpus
import ScriptFeatures.Parser.Run
import ScriptFeatures.Sources
import ScriptFeatures.Store.Databases

/-!
What the command line does. A run takes the files, the databases that lie in
directories and the parser as they are and gives what it prints, the message it
fails with, and the files and databases it leaves.
-/

namespace ScriptFeatures

namespace Config

inductive LoadError
  | file (path : String) (e : FileError)
  | invalid (f : Fault)
  deriving DecidableEq, Repr

def LoadError.toError : LoadError → Error
  | .file path e => .file path e.message
  | .invalid f => f.toError

def load (t : FileTree) : Option String → Except LoadError Config
  | none => .ok {}
  | some path =>
    match t.readText path with
    | .error e => .error (.file path e)
    | .ok text => (read text).mapError .invalid

end Config

namespace Cli

structure World where
  files : FileTree
  databases : Databases

/-- How a run ends. The failures of one run are told apart by their message. -/
inductive Ending
  | success
  | failure (message : String)
  | usage
  deriving DecidableEq, Repr

def Ending.exitCode : Ending → Nat
  | .success => 0
  | .failure _ => 1
  | .usage => 2

structure Result where
  printed : String
  ending : Ending
  world : World

def succeed (printed : String) (w : World) : Result := ⟨printed, .success, w⟩

def failWith (message : String) (w : World) : Result := ⟨"", .failure message, w⟩

def versionText : String := "jast 0.1.0\n"

/-! ### One source -/

/-- The reports of one source: one for each document it was printed with, or
one for the document in its file. -/
def reports (p : Parser) (c : Config) (r : ExtractRequest) (t : FileTree) :
    Except Error (List Report) × FileTree :=
  if r.stream then
    match p.extractStream c.parser r.file t with
    | (.ok found, t) => (.ok (found.filterMap fun m => m.map (.of r.file)), t)
    | (.error e, t) => (.error e, t)
  else
    let path := r.jsonPath.getD (defaultJsonPath r.file)
    match p.load c.parser r.file path (r.retainJson || c.retainJson) t with
    | (.error e, t) => (.error e, t)
    | (.ok d, t) =>
      match d.frequencies with
      | .ok m => (.ok [.of r.file m], t)
      | .error e => (.error e, t)

def extract (p : Parser) (c : Config) (r : ExtractRequest) (w : World) : Result :=
  match ReportFormat.ofName? r.format with
  | none => failWith ("Unknown output format: " ++ r.format) w
  | some format =>
    match reports p c r w.files with
    | (.error e, files) => failWith e.message { w with files }
    | (.ok found, files) =>
      let text := String.ofList (format.renderAll found)
      match r.output with
      | none => succeed text { w with files }
      | some path =>
        match files.write path text.toUTF8 with
        | .ok files => succeed "" { w with files }
        | .error _ => failWith ("Failed to write " ++ path) { w with files }

/-! ### Labelled directories -/

/-- Counts the sources of a directory into the store of its label, which is
opened in the database of the analysis directory once all sources have been
extracted, and reports what the store holds after that. It is flushed before it
is asked, and closed in any case. The documents of the sources come from a
provider. -/
def preselectDirectory (k : KeyCoding)
    (provide : FileTree → String → Except Error Descriptor × FileTree)
    (analysisPath directory label : String) (w : World) : Except String CorpusReport × World :=
  match w.files.createDirectories analysisPath with
  | (.error _, files) => (.error ("Failed to create " ++ analysisPath), { w with files })
  | (.ok (), files) =>
    match collectSources files directory with
    | .error _ => (.error (sourcesMessage directory), { w with files })
    | .ok sources =>
      let (run, files) := CorpusRun.extract provide files sources
      let place := ((files.locate analysisPath).toOption).getD files.workingDirectory
      let opened := OpenStore.ofLabel (w.databases.get place) label
      let (_, store) := run.record (fun s m => (true, s.record k m)) opened
      let store := store.flush
      let w : World := ⟨files, w.databases.set place store.close⟩
      match store.snapshot k with
      | none => (.error (Error.store "a key cannot be read").message, w)
      | some counts => (.ok (run.report label counts), w)

def loaderFor (c : Config) (analysisPath label : String) (t : FileTree) :
    Except Error Loader × FileTree :=
  if c.retainJson then Loader.retaining (Path.join (Path.join analysisPath "json") label) t
  else Loader.scratch t

/-- Handles the directories in order; the first failure ends the run. -/
def preselectAll (p : Parser) (c : Config) (analysisPath printed : String) (w : World) :
    List (String × String) → Result
  | [] => succeed printed w
  | (directory, label) :: rest =>
    match loaderFor c analysisPath label w.files with
    | (.error e, files) => ⟨printed, .failure e.message, { w with files }⟩
    | (.ok l, files) =>
      match preselectDirectory .binary (l.provide p c.parser) analysisPath directory label
          { w with files } with
      | (.error message, w) =>
        ⟨printed, .failure message, { w with files := l.release w.files }⟩
      | (.ok report, w) =>
        preselectAll p c analysisPath (printed ++ report.text ++ "\n")
          { w with files := l.release w.files } rest

def preselect (p : Parser) (c : Config) (r : PreselectRequest) (w : World) : Result :=
  let directories := r.directories.length
  let labels := r.labels.length
  if directories ≠ labels then
    failWith ("Expected one --label per --dir (" ++ toString directories ++ " dirs, "
      ++ toString labels ++ " labels)") w
  else
    preselectAll p c (r.analysisPath.getD c.analysisPath) "" w (r.directories.zip r.labels)

/-! ### Runs -/

def run (p : Parser) (arguments : List String) (w : World) : Result :=
  match request? arguments with
  | none => ⟨"", .usage, w⟩
  | some .version => succeed versionText w
  | some .help => succeed "" w
  | some (.run config _ command) =>
    match Config.load w.files config with
    | .error _ => failWith "Failed to load configuration" w
    | .ok c =>
      match command with
      | .extract r => extract p c r w
      | .preselect r => preselect p c r w

end Cli

end ScriptFeatures
