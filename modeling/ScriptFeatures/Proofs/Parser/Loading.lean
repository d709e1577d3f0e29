import Mathlib.Data.List.Nodup
import Mathlib.Logic.Function.Iterate
import ScriptFeatures.Parser.Run
import ScriptFeatures.Proofs.FileTree

/-!
One load among others. A load has the parser write the document, reads it and,
unless it is kept, removes it; each of these is one step. What a step does
depends on what is at the target of the load (`Loader.Agree.advance`), and it
changes nothing else (`Loader.advance_differsAt`). The files of one directory
have different targets (`Loader.exists_apart`), so their loads can take turns.
-/

namespace ScriptFeatures

/-- How far the load of one source has come. -/
inductive LoadStage
  | waiting
  | parsed
  | loaded (d : Descriptor)
  | done (result : Except Error Descriptor)

namespace LoadStage

def IsDone (stage : LoadStage) : Prop := ∃ result, stage = .done result

def remaining : LoadStage → Nat
  | .waiting => 3
  | .parsed => 2
  | .loaded _ => 1
  | .done _ => 0

theorem isDone_of_remaining {stage : LoadStage} (h : stage.remaining = 0) : stage.IsDone := by
  cases stage with
  | done result => exact ⟨result, rfl⟩
  | _ => contradiction

def afterRun : Except Error ByteArray → LoadStage
  | .ok _ => .parsed
  | .error e => .done (.error e)

def afterReading (retain : Bool) : Except Error Descriptor → LoadStage
  | .ok d => if retain then .done (.ok d) else .loaded d
  | .error e => .done (.error e)

end LoadStage

namespace Loader

def advance (l : Loader) (p : Parser) (c : ParserConfig) (input : String) :
    LoadStage × FileTree → LoadStage × FileTree
  | (.waiting, t) =>
    let (output, t) := p.run c input (some (l.jsonPath input)) t
    (.afterRun output, t)
  | (.parsed, t) =>
    (.afterReading l.retain (Parser.documentAt t input (l.jsonPath input)), t)
  | (.loaded d, t) => (.done (.ok d), (t.remove (l.jsonPath input)).toOption.getD t)
  | (.done result, t) => (.done result, t)

section

variable (l : Loader) (p : Parser) (c : ParserConfig) (input : String)

theorem advance_provide (t : FileTree) :
    (l.advance p c input)^[3] (.waiting, t) =
      (.done (l.provide p c t input).1, (l.provide p c t input).2) := by
  rw [Function.iterate_succ_apply, Function.iterate_succ_apply, Function.iterate_succ_apply,
    Function.iterate_zero_apply, provide, Parser.load, Parser.loadWith, advance]
  rcases p.run c input (some (l.jsonPath input)) t with ⟨e | output, files⟩
  · rfl
  · dsimp only [LoadStage.afterRun]
    rw [advance]
    rcases Parser.documentAt files input (l.jsonPath input) with e | d
    · simp only [LoadStage.afterReading, advance]
    · cases l.retain
      · simp [LoadStage.afterReading, advance]
      · simp [LoadStage.afterReading, advance]

theorem iterate_advance_done (result : Except Error Descriptor) (t : FileTree) (n : Nat) :
    (l.advance p c input)^[n] (.done result, t) = (.done result, t) :=
  Function.iterate_fixed rfl n

theorem provide_of_iterate {t : FileTree} {result : Except Error Descriptor} {n : Nat}
    (h : ((l.advance p c input)^[n] (.waiting, t)).1 = .done result) :
    l.provide p c t input = (result, ((l.advance p c input)^[n] (.waiting, t)).2) := by
  have hthen : (l.advance p c input)^[n + 3] (.waiting, t) =
      (l.advance p c input)^[n] (.waiting, t) := by
    rw [Nat.add_comm, Function.iterate_add_apply, ← Prod.eta ((l.advance p c input)^[n] _),
      h, iterate_advance_done]
  rw [← hthen, Function.iterate_add_apply, advance_provide, iterate_advance_done] at h ⊢
  exact Prod.ext (LoadStage.done.inj h) rfl

theorem remaining_advance (s : LoadStage × FileTree) :
    (l.advance p c input s).1.remaining ≤ s.1.remaining - 1 := by
  obtain ⟨stage, t⟩ := s
  cases stage with
  | waiting =>
    rw [advance]
    rcases p.run c input (some (l.jsonPath input)) t with ⟨e | output, files⟩
    · exact Nat.zero_le _
    · exact Nat.le_refl 2
  | parsed =>
    rw [advance]
    cases Parser.documentAt t input (l.jsonPath input) with
    | ok d =>
      rw [LoadStage.afterReading]
      cases l.retain
      · exact Nat.le_refl 1
      · exact Nat.zero_le _
    | error e => exact Nat.zero_le _
  | loaded d => exact Nat.zero_le _
  | done result => exact Nat.zero_le _

end

/-! ### Targets -/

/-- The places of the documents of some sources. -/
def targets (l : Loader) (t : FileTree) (inputs : List String) : Set Location :=
  {q | ∃ input ∈ inputs, t.locate (l.jsonPath input) = .ok q}

/-- A parser writes the target that it is given, if anything. How it ends and
what it writes depends on the source and not on the documents of a loader. -/
def WritesTargets (l : Loader) (p : Parser) (c : ParserConfig) (t : FileTree)
    (inputs : List String) (outcome : String → Outcome) (written : String → Option ByteArray) :
    Prop :=
  ∀ input ∈ inputs, ∀ u, t.DiffersAt (l.targets t inputs) u →
    p (.parse c input (some (l.jsonPath input))) u =
      (outcome input, (written input).elim u fun content =>
        (u.write (l.jsonPath input) content).toOption.getD u)

/-- Different sources have different targets, none of which is a directory. -/
structure Apart (l : Loader) (t : FileTree) (inputs : List String) (target : String → Location) :
    Prop where
  nodup : inputs.Nodup
  locate : ∀ input ∈ inputs, t.locate (l.jsonPath input) = .ok (target input)
  noDirectory : ∀ input ∈ inputs, t.isDirectory (target input) = false
  inj : ∀ input ∈ inputs, ∀ input' ∈ inputs, target input = target input' → input = input'

theorem jsonPath_join {l : Loader} {directory name : String} (hname : Path.IsName name) :
    l.jsonPath (Path.join directory name) = Path.join l.directory (name ++ ".json") := by
  rw [jsonPath, jsonPathIn, Path.fileName?_join hname]
  rfl

theorem eq_of_locate_jsonPath {l : Loader} {t : FileTree} {directory name name' : String}
    (hname : Path.IsName name) (hname' : Path.IsName name') {q : Location}
    (h : t.locate (l.jsonPath (Path.join directory name)) = .ok q)
    (h' : t.locate (l.jsonPath (Path.join directory name')) = .ok q) : name = name' := by
  have hjson {n : String} (hn : Path.IsName n) : Path.IsName (n ++ ".json") :=
    hn.append (by simp) (by decide)
  rw [jsonPath_join hname] at h
  rw [jsonPath_join hname'] at h'
  obtain ⟨parent, -, hplace⟩ := FileTree.locate_join (hjson hname) h
  obtain ⟨parent', -, hplace'⟩ := FileTree.locate_join (hjson hname') h'
  rw [hplace] at hplace'
  have hlast := (List.append_inj' hplace' rfl).2
  exact String.append_left_inj ".json" |>.mp (List.singleton_inj.mp hlast)

theorem exists_apart {l : Loader} {t : FileTree} {directory : String} {names : List String}
    (hnames : ∀ name ∈ names, Path.IsName name) (hdistinct : names.Nodup)
    (hreach : ∀ name ∈ names, ∃ q, t.locate (l.jsonPath (Path.join directory name)) = .ok q ∧
      t.isDirectory q = false) :
    ∃ target, l.Apart t (names.map (Path.join directory)) target := by
  let target (input : String) : Location := (t.locate (l.jsonPath input)).toOption.getD []
  have htarget (name : String) (hname : name ∈ names) :
      t.locate (l.jsonPath (Path.join directory name)) =
          .ok (target (Path.join directory name)) ∧
        t.isDirectory (target (Path.join directory name)) = false := by
    obtain ⟨q, hq, hdirectory⟩ := hreach name hname
    have hsame : target (Path.join directory name) = q := by simp [target, hq, Except.toOption]
    rw [hsame]
    exact ⟨hq, hdirectory⟩
  have hinj (name : String) (hname : name ∈ names) (name' : String) (hname' : name' ∈ names)
      (heq : target (Path.join directory name) = target (Path.join directory name')) :
      name = name' := by
    have hsecond := (htarget name' hname').1
    rw [← heq] at hsecond
    exact eq_of_locate_jsonPath (hnames name hname) (hnames name' hname') (htarget name hname).1
      hsecond
  refine ⟨target, ?_, ?_, ?_, ?_⟩
  · refine hdistinct.map_on ?_
    intro name hname name' hname' heq
    exact hinj name hname name' hname' (congrArg target heq)
  · exact List.forall_mem_map.mpr fun name hname => (htarget name hname).1
  · exact List.forall_mem_map.mpr fun name hname => (htarget name hname).2
  · refine List.forall_mem_map.mpr fun name hname => List.forall_mem_map.mpr ?_
    intro name' hname' heq
    rw [hinj name hname name' hname' heq]

/-! ### Steps at one target -/

section

variable {l : Loader} {p : Parser} {c : ParserConfig} {t u : FileTree} {inputs : List String}
  {target : String → Location} {outcome : String → Outcome} {written : String → Option ByteArray}
  {input : String}

namespace Apart

theorem mem_targets (h : l.Apart t inputs target) {q : Location} :
    q ∈ l.targets t inputs ↔ ∃ input ∈ inputs, target input = q := by
  constructor
  · rintro ⟨input, hinput, hq⟩
    exact ⟨input, hinput, Except.ok.inj ((h.locate input hinput).symm.trans hq)⟩
  · rintro ⟨input, hinput, rfl⟩
    exact ⟨input, hinput, h.locate input hinput⟩

theorem singleton_subset (h : l.Apart t inputs target) (hinput : input ∈ inputs) :
    {target input} ⊆ l.targets t inputs :=
  Set.singleton_subset_iff.mpr (h.mem_targets.mpr ⟨input, hinput, rfl⟩)

theorem target_ne_nil (h : l.Apart t inputs target) (hinput : input ∈ inputs) :
    target input ≠ [] := by
  intro hroot
  have hdirectory := h.noDirectory input hinput
  rw [hroot] at hdirectory
  contradiction

theorem differsAt_self (h : l.Apart t inputs target) : t.DiffersAt (l.targets t inputs) t := by
  refine .refl fun q hq => ?_
  obtain ⟨input, hinput, rfl⟩ := h.mem_targets.mp hq
  exact h.noDirectory input hinput

/-- Documents are no directories, so the directories stay the same. -/
theorem sameDirectories (h : l.Apart t inputs target) (hu : t.DiffersAt (l.targets t inputs) u) :
    t.SameDirectories u where
  workingDirectory := hu.workingDirectory
  isDirectory := by
    intro q
    by_cases hq : q ∈ l.targets t inputs
    · rw [hu.noDirectory q hq, h.differsAt_self.noDirectory q hq]
    · rw [FileTree.isDirectory, FileTree.isDirectory, hu.others q hq]

theorem locate_eq (h : l.Apart t inputs target) (hu : t.DiffersAt (l.targets t inputs) u)
    (hinput : input ∈ inputs) : u.locate (l.jsonPath input) = .ok (target input) :=
  FileTree.locate_of_sameDirectories (h.sameDirectories hu) (h.locate input hinput)

theorem isDirectory_eq (h : l.Apart t inputs target) (hu : t.DiffersAt (l.targets t inputs) u)
    (hinput : input ∈ inputs) : u.isDirectory (target input) = false :=
  hu.noDirectory _ (h.mem_targets.mpr ⟨input, hinput, rfl⟩)

theorem run_eq (h : l.Apart t inputs target)
    (hwrites : l.WritesTargets p c t inputs outcome written)
    (hu : t.DiffersAt (l.targets t inputs) u) (hinput : input ∈ inputs) :
    p.run c input (some (l.jsonPath input)) u =
      ((outcome input).output c.program input,
        (written input).elim u fun content => u.set (target input) (.file content)) := by
  have hwrite (content : ByteArray) :
      (u.write (l.jsonPath input) content).toOption.getD u =
        u.set (target input) (.file content) := by
    rw [FileTree.write_eq (h.locate_eq hu hinput) (h.isDirectory_eq hu hinput)]
    rfl
  simp only [Parser.run, hwrites input hinput u hu, hwrite]

theorem get?_remove (h : l.Apart t inputs target) (hu : t.DiffersAt (l.targets t inputs) u)
    (hinput : input ∈ inputs) :
    ((u.remove (l.jsonPath input)).toOption.getD u).get? (target input) = none := by
  rcases FileTree.remove_cases (h.locate_eq hu hinput) (h.isDirectory_eq hu hinput) with
    ⟨hnone, hfiles⟩ | hfiles
  · rw [hfiles, hnone]
  · rw [hfiles, FileTree.get?_erase (h.target_ne_nil hinput), if_pos rfl]

end Apart

theorem advance_differsAt (h : l.Apart t inputs target)
    (hwrites : l.WritesTargets p c t inputs outcome written)
    (hu : t.DiffersAt (l.targets t inputs) u) (hinput : input ∈ inputs) (stage : LoadStage) :
    u.DiffersAt {target input} (l.advance p c input (stage, u)).2 := by
  have hplace := h.target_ne_nil hinput
  have hself : u.DiffersAt {target input} u := by
    refine .refl fun q hq => ?_
    rw [Set.mem_singleton_iff.mp hq]
    exact h.isDirectory_eq hu hinput
  cases stage with
  | waiting =>
    rw [advance, h.run_eq hwrites hu hinput]
    cases written input with
    | none => exact hself
    | some content => exact .set hplace content
  | parsed => exact hself
  | loaded d =>
    rw [advance]
    rcases FileTree.remove_cases (h.locate_eq hu hinput) (h.isDirectory_eq hu hinput) with
      ⟨-, hfiles⟩ | hfiles
    · rw [hfiles]
      exact hself
    · rw [hfiles]
      exact .erase hplace
  | done result => exact hself

theorem iterate_differsAt (h : l.Apart t inputs target)
    (hwrites : l.WritesTargets p c t inputs outcome written)
    (hu : t.DiffersAt (l.targets t inputs) u) (hinput : input ∈ inputs) (stage : LoadStage)
    (n : Nat) : u.DiffersAt {target input} ((l.advance p c input)^[n] (stage, u)).2 := by
  induction n with
  | zero =>
    refine .refl fun q hq => ?_
    rw [Set.mem_singleton_iff.mp hq]
    exact h.isDirectory_eq hu hinput
  | succ n ih =>
    rw [Function.iterate_succ_apply']
    exact ih.trans subset_rfl
      (advance_differsAt h hwrites (hu.trans (h.singleton_subset hinput) ih) hinput _)

/-- Two states of a load that are the same for the load: the files may differ
at the targets of the others. -/
structure Agree (l : Loader) (t : FileTree) (inputs : List String) (place : Location)
    (s s' : LoadStage × FileTree) : Prop where
  stage : s.1 = s'.1
  entry : s.2.get? place = s'.2.get? place
  left : t.DiffersAt (l.targets t inputs) s.2
  right : t.DiffersAt (l.targets t inputs) s'.2

/-- A step depends on what is at the target of its load. -/
theorem Agree.advance (h : l.Apart t inputs target)
    (hwrites : l.WritesTargets p c t inputs outcome written) (hinput : input ∈ inputs)
    {s s' : LoadStage × FileTree} (hs : l.Agree t inputs (target input) s s') :
    l.Agree t inputs (target input) (l.advance p c input s) (l.advance p c input s') := by
  obtain ⟨stage, u⟩ := s
  obtain ⟨stage', v⟩ := s'
  obtain ⟨hstage, hentry, hu, hv⟩ := hs
  cases hstage
  have hsub := h.singleton_subset hinput
  have hplace := h.target_ne_nil hinput
  have heffect : (l.advance p c input (stage, u)).1 = (l.advance p c input (stage, v)).1 ∧
      (l.advance p c input (stage, u)).2.get? (target input) =
        (l.advance p c input (stage, v)).2.get? (target input) := by
    cases stage with
    | waiting =>
      rw [Loader.advance, Loader.advance, h.run_eq hwrites hu hinput, h.run_eq hwrites hv hinput]
      refine ⟨rfl, ?_⟩
      cases written input with
      | none => exact hentry
      | some content =>
        simp only [Option.elim_some, FileTree.get?_set hplace, if_true]
    | parsed =>
      have htext := FileTree.readText_congr (h.locate_eq hu hinput) (h.locate_eq hv hinput) hentry
      refine ⟨?_, hentry⟩
      rw [Loader.advance, Loader.advance, Parser.documentAt, Parser.documentAt, htext]
    | loaded d =>
      refine ⟨rfl, ?_⟩
      rw [Loader.advance, Loader.advance]
      rw [h.get?_remove hu hinput, h.get?_remove hv hinput]
    | done result => exact ⟨rfl, hentry⟩
  exact ⟨heffect.1, heffect.2, hu.trans hsub (advance_differsAt h hwrites hu hinput stage),
    hv.trans hsub (advance_differsAt h hwrites hv hinput stage)⟩

theorem Agree.iterate (h : l.Apart t inputs target)
    (hwrites : l.WritesTargets p c t inputs outcome written) (hinput : input ∈ inputs)
    {s s' : LoadStage × FileTree} (hs : l.Agree t inputs (target input) s s') (n : Nat) :
    l.Agree t inputs (target input) ((l.advance p c input)^[n] s)
      ((l.advance p c input)^[n] s') := by
  induction n with
  | zero => exact hs
  | succ n ih =>
    rw [Function.iterate_succ_apply', Function.iterate_succ_apply']
    exact ih.advance h hwrites hinput

/-! ### Loads on their own -/

/-- A load decodes what the parser wrote. -/
theorem provide_text (h : l.Apart t inputs target)
    (hwrites : l.WritesTargets p c t inputs outcome written) (hinput : input ∈ inputs)
    {output : ByteArray} {text : String}
    (houtput : (outcome input).output c.program input = .ok output)
    (htext : written input = some text.toUTF8) :
    (l.provide p c t input).1 =
      (Descriptor.read text).mapError fun e => .noTree input e.message := by
  have hself := h.differsAt_self
  have hplace := h.target_ne_nil hinput
  have hsub := h.singleton_subset hinput
  have hlocate := h.locate_eq (hself.trans hsub (.set hplace text.toUTF8)) hinput
  have hread : (t.set (target input) (.file text.toUTF8)).readText (l.jsonPath input) =
      .ok text := by
    refine FileTree.readText_eq_ok hlocate ?_
    rw [FileTree.get?_set hplace, if_pos rfl]
  rw [provide, Parser.load, Parser.loadWith, h.run_eq hwrites hself hinput, houtput, htext]
  simp only [Option.elim_some, Parser.documentAt, hread]
  cases Descriptor.read text with
  | ok d => rfl
  | error e => rfl

/-- A load that succeeds leaves no document unless it is to be kept. -/
theorem provide_removed (h : l.Apart t inputs target)
    (hwrites : l.WritesTargets p c t inputs outcome written) (hinput : input ∈ inputs)
    (hretain : l.retain = false) {d : Descriptor} (hd : (l.provide p c t input).1 = .ok d) :
    (l.provide p c t input).2.get? (target input) = none := by
  have hself := h.differsAt_self
  have hafter := hself.trans (h.singleton_subset hinput)
    (advance_differsAt h hwrites hself hinput .waiting)
  rw [advance, h.run_eq hwrites hself hinput] at hafter
  rw [provide, Parser.load, Parser.loadWith, h.run_eq hwrites hself hinput, hretain] at hd ⊢
  generalize (written input).elim t _ = u at hafter hd ⊢
  cases houtput : (outcome input).output c.program input with
  | error e =>
    rw [houtput] at hd
    contradiction
  | ok output =>
    rw [houtput] at hd
    dsimp only at hd ⊢
    cases hdocument : Parser.documentAt u input (l.jsonPath input) with
    | error e =>
      rw [hdocument] at hd
      contradiction
    | ok d' =>
      simp only [Bool.false_eq_true, if_false]
      exact h.get?_remove hafter hinput

theorem provide_retained (h : l.Apart t inputs target)
    (hwrites : l.WritesTargets p c t inputs outcome written) (hinput : input ∈ inputs)
    (hretain : l.retain = true) {content : ByteArray} (hcontent : written input = some content) :
    (l.provide p c t input).2.get? (target input) = some (.file content) := by
  have hset : (t.set (target input) (.file content)).get? (target input) =
      some (.file content) := by
    rw [FileTree.get?_set (h.target_ne_nil hinput), if_pos rfl]
  rw [provide, Parser.load, Parser.loadWith, h.run_eq hwrites h.differsAt_self hinput, hcontent,
    hretain]
  simp only [Option.elim_some]
  cases (outcome input).output c.program input with
  | error e => exact hset
  | ok output =>
    dsimp only
    cases Parser.documentAt _ input (l.jsonPath input) with
    | error e => exact hset
    | ok d =>
      simp only [if_true]
      exact hset

end

end Loader

end ScriptFeatures
