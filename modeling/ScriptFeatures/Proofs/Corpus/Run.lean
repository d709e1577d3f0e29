import Mathlib.Data.List.Induction
import ScriptFeatures.Corpus

/-!
A run over the sources of a corpus. The outcome of a source is what its own
document gives, as long as the provider answers for each source by what it is
(`CorpusRun.extract_eq`), so the analyses are one for each source in their
order. What is recorded are the features of those that did not fail
(`CorpusRun.record_eq`), so the others change nothing (`CorpusRun.Isolates`).
-/

namespace ScriptFeatures

/-- The features of a source, unless it fails. -/
def featuresOf? (provided : Except Error Descriptor) : Option Frequencies :=
  (featuresOf provided).toOption

namespace CorpusRun

variable {σ : Type}

/-- The run over some sources, by what each of them gives. -/
def ofResults (result : String → Except Error Descriptor) (paths : List String) : CorpusRun :=
  ofOutcomes (paths.map fun path => (path, featuresOf (result path)))

/-! ### Extraction -/

section

variable {provide : σ → String → Except Error Descriptor × σ}
  {result : String → Except Error Descriptor} {I : List String → σ → Prop}

/-- If a provider keeps an invariant over the sources that are left, and under
it answers for the first of them by the source alone, the run is that of the
answers. -/
theorem extract_eq (hstep : ∀ path rest s, I (path :: rest) s →
      (provide s path).1 = result path ∧ I rest (provide s path).2)
    {paths : List String} {s : σ} (h : I paths s) :
    (extract provide s paths).1 = ofResults result paths ∧ I [] (extract provide s paths).2 := by
  let next (state : σ × List (String × Except Error Frequencies)) (path : String) :=
    ((provide state.1 path).2, (path, featuresOf (provide state.1 path).1) :: state.2)
  have hfold : ∀ (s : σ) (before : List (String × Except Error Frequencies)), I paths s →
      (paths.foldl next (s, before)).2.reverse =
          before.reverse ++ paths.map (fun path => (path, featuresOf (result path))) ∧
        I [] (paths.foldl next (s, before)).1 := by
    clear h
    induction paths with
    | nil => exact fun s before h => ⟨(List.append_nil _).symm, h⟩
    | cons path rest ih =>
      intro s before h
      obtain ⟨hresult, hrest⟩ := hstep path rest s h
      obtain ⟨houtcomes, hend⟩ := ih _ ((path, featuresOf (provide s path).1) :: before) hrest
      refine ⟨?_, hend⟩
      rw [List.foldl_cons, houtcomes, hresult, List.reverse_cons, List.append_assoc]
      rfl
  obtain ⟨houtcomes, hend⟩ := hfold s [] h
  exact ⟨congrArg ofOutcomes houtcomes, hend⟩

theorem extract_pure (result : String → Except Error Descriptor) (s : σ) (paths : List String) :
    extract (fun s path => (result path, s)) s paths = (ofResults result paths, s) := by
  let provide (s : σ) (path : String) := (result path, s)
  let I (_ : List String) (s' : σ) : Prop := s' = s
  have hstep : ∀ path rest s', I (path :: rest) s' →
      (provide s' path).1 = result path ∧ I rest (provide s' path).2 := fun _ _ _ h => ⟨rfl, h⟩
  have hstart : I paths s := rfl
  obtain ⟨hrun, hstate⟩ := extract_eq hstep hstart
  exact Prod.ext hrun hstate

end

variable (result : String → Except Error Descriptor) (paths : List String)

/-! ### Analyses and failures -/

theorem analyses_ofResults :
    (ofResults result paths).analyses =
      paths.map fun path => ⟨path, featuresOf? (result path)⟩ := by
  simp only [ofResults, ofOutcomes, List.map_map]
  rfl

theorem failures_ofResults :
    (ofResults result paths).failures.map Prod.fst =
      paths.filter fun path => (featuresOf? (result path)).isNone := by
  simp only [ofResults, ofOutcomes]
  induction paths with
  | nil => rfl
  | cons path paths ih =>
    rw [List.map_cons, List.filterMap_cons, List.filter_cons, featuresOf?]
    cases hresult : featuresOf (result path) with
    | ok m => exact ih
    | error e => exact congrArg (path :: ·) ih

theorem mem_failures_ofResults (path : String) :
    path ∈ (ofResults result paths).failures.map Prod.fst ↔
      ⟨path, none⟩ ∈ (ofResults result paths).analyses := by
  rw [failures_ofResults, analyses_ofResults, List.mem_filter, List.mem_map]
  constructor
  · rintro ⟨hpath, hnone⟩
    exact ⟨path, hpath, by rw [Option.isNone_iff_eq_none.mp hnone]⟩
  · rintro ⟨path', hpath, heq⟩
    obtain ⟨rfl, hnone⟩ := Analysis.mk.inj heq
    exact ⟨hpath, Option.isNone_iff_eq_none.mpr hnone⟩

theorem length_failures_ofResults :
    (ofResults result paths).failures.length =
      paths.countP fun path => (featuresOf? (result path)).isNone := by
  rw [← List.length_map (f := Prod.fst), failures_ofResults, List.countP_eq_length_filter]

/-! ### Records -/

theorem record_eq (run : CorpusRun) (record : σ → Frequencies → σ) (s : σ) :
    run.record (fun s m => (true, record s m)) s =
      (run.succeeded, (run.analyses.filterMap (·.features)).foldl record s) := by
  rw [CorpusRun.record, succeeded]
  induction run.analyses using List.reverseRecOn with
  | nil => rfl
  | append_singleton analyses a ih =>
    rw [List.foldl_append, ih, List.filterMap_append, List.foldl_append, List.countP_append,
      List.foldl_cons, List.foldl_nil]
    cases hfeatures : a.features <;> simp [hfeatures]

theorem record_ofResults (record : σ → Frequencies → σ) (s : σ) :
    ((ofResults result paths).record (fun s m => (true, record s m)) s).2 =
      (paths.filterMap fun path => featuresOf? (result path)).foldl record s := by
  rw [record_eq, analyses_ofResults, List.filterMap_map]
  rfl

/-! ### Sources that fail -/

/-- The sources that do not fail. -/
def succeeding : List String := paths.filter fun path => (featuresOf? (result path)).isSome

/-- Each source of a run is analysed by its path alone, in order, and failed
exactly if its analysis has no features. Without the sources that fail the
others have the same analyses, and the same is recorded, in any store. -/
structure Isolates (run : CorpusRun) : Prop where
  analyses : run.analyses = paths.map fun path => ⟨path, featuresOf? (result path)⟩
  failures : ∀ path, path ∈ run.failures.map Prod.fst ↔ ⟨path, none⟩ ∈ run.analyses
  others : (ofResults result (succeeding result paths)).analyses =
    run.analyses.filter (·.features.isSome)
  recorded : ∀ {σ : Type} (record : σ → Frequencies → σ) (s : σ),
    (ofResults result (succeeding result paths)).record (fun s m => (true, record s m)) s =
      run.record (fun s m => (true, record s m)) s

theorem analyses_succeeding :
    (ofResults result (succeeding result paths)).analyses =
      (ofResults result paths).analyses.filter (·.features.isSome) := by
  rw [analyses_ofResults, analyses_ofResults, List.filter_map]
  rfl

theorem record_succeeding (record : σ → Frequencies → σ) (s : σ) :
    (ofResults result (succeeding result paths)).record (fun s m => (true, record s m)) s =
      (ofResults result paths).record (fun s m => (true, record s m)) s := by
  have hsame : (ofResults result (succeeding result paths)).analyses.filterMap (·.features) =
      (ofResults result paths).analyses.filterMap (·.features) := by
    rw [analyses_succeeding, List.filterMap_filter]
    congr 1
    funext a
    cases a.features <;> rfl
  rw [record_eq, record_eq, hsame, succeeded, succeeded, analyses_succeeding, List.countP_filter]
  simp

theorem isolates_ofResults : Isolates result paths (ofResults result paths) where
  analyses := analyses_ofResults result paths
  failures := mem_failures_ofResults result paths
  others := analyses_succeeding result paths
  recorded := record_succeeding result paths

end CorpusRun

end ScriptFeatures
