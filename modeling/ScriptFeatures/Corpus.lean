import ScriptFeatures.Report
import ScriptFeatures.Store

/-!
The sources of a corpus. Each is extracted on its own, so a source that fails
changes nothing for the others.
-/

namespace ScriptFeatures

/-- The result for one source; it has no features when the source failed. -/
structure Analysis where
  path : String
  features : Option Frequencies

structure CorpusRun where
  /-- One for each source, in the order of the sources. -/
  analyses : List Analysis
  /-- The sources that failed, with the reason. -/
  failures : List (String × String)

def workerCount (requested : Nat) : Nat := max requested 1

def featuresOf (provided : Except Error Descriptor) : Except Error Frequencies :=
  match provided with
  | .ok d => d.frequencies
  | .error e => .error e

namespace CorpusRun

def ofOutcomes (outcomes : List (String × Except Error Frequencies)) : CorpusRun :=
  { analyses := outcomes.map fun (path, outcome) => ⟨path, outcome.toOption⟩
    failures := outcomes.filterMap fun (path, outcome) =>
      match outcome with
      | .ok _ => none
      | .error e => some (path, e.message) }

/-- Extracts the sources one after another, with a provider of documents that
may keep a state. -/
def extract (provide : σ → String → Except Error Descriptor × σ) (s : σ) (paths : List String) :
    CorpusRun × σ :=
  let (s, outcomes) := paths.foldl (fun (s, outcomes) path =>
    let (provided, s) := provide s path
    (s, (path, featuresOf provided) :: outcomes)) (s, [])
  (ofOutcomes outcomes.reverse, s)

def succeeded (run : CorpusRun) : Nat := run.analyses.countP (·.features.isSome)

/-- Records the sources that have features, with a recorder that says whether
it recorded; also gives their number. -/
def record (run : CorpusRun) (recorder : σ → Frequencies → Bool × σ) (s : σ) : Nat × σ :=
  run.analyses.foldl (fun (recorded, s) analysis =>
    match analysis.features with
    | none => (recorded, s)
    | some m =>
      let (done, s) := recorder s m
      (if done then recorded + 1 else recorded, s)) (0, s)

def report (run : CorpusRun) (label : String) (snapshot : List (Feature × Nat)) : CorpusReport :=
  { label
    files := run.analyses.length
    failed := run.failures.length
    features := snapshot.map fun (f, n) => .of f n }

end CorpusRun

end ScriptFeatures
