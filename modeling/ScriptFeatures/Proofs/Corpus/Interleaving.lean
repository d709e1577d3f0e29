import Mathlib.Algebra.GroupWithZero.Nat
import Mathlib.Logic.Relation
import ScriptFeatures.Proofs.Corpus.Run
import ScriptFeatures.Proofs.Parser.Documents
import ScriptFeatures.Proofs.Parser.Loading

/-!
Loads of many sources at the same time, which take their steps in any order on
the files they share. At any time each load is where it would be after some
steps on its own (`Loading.Follows`), whatever the others have done, so in the
end each gives what it gives on its own, and the run over the sources is the
one that loads them one after another (`Loading.undisturbed_of_run`).
-/

namespace ScriptFeatures

/-- Loads under way, each with its source, and the files they share. -/
structure Loading where
  loads : List (String × LoadStage)
  files : FileTree

namespace LoadStage

def result? : LoadStage → Option (Except Error Descriptor)
  | .done result => some result
  | _ => none

end LoadStage

namespace Loading

def start (inputs : List String) (t : FileTree) : Loading := ⟨inputs.map (·, .waiting), t⟩

/-- One of the loads that are not done takes its next step. -/
inductive Step (l : Loader) (p : Parser) (c : ParserConfig) : Loading → Loading → Prop
  | advance (before after : List (String × LoadStage)) (input : String) (stage : LoadStage)
      (hstage : ¬ stage.IsDone) (t : FileTree) :
      Step l p c ⟨before ++ (input, stage) :: after, t⟩
        ⟨before ++ (input, (l.advance p c input (stage, t)).1) :: after,
          (l.advance p c input (stage, t)).2⟩

abbrev Run (l : Loader) (p : Parser) (c : ParserConfig) : Loading → Loading → Prop :=
  Relation.ReflTransGen (Step l p c)

def IsDone (r : Loading) : Prop := ∀ load ∈ r.loads, load.2.IsDone

def corpusRun (r : Loading) : CorpusRun :=
  .ofOutcomes (r.loads.filterMap fun load => load.2.result?.map fun result =>
    (load.1, featuresOf result))

/-! ### Going on -/

section

variable (l : Loader) (p : Parser) (c : ParserConfig)

def remaining (r : Loading) : Nat := (r.loads.map (·.2.remaining)).sum

theorem exists_step {r : Loading} (h : ¬ r.IsDone) :
    ∃ r', Step l p c r r' ∧ r'.remaining < r.remaining := by
  obtain ⟨loads, t⟩ := r
  simp only [IsDone, not_forall] at h
  obtain ⟨⟨input, stage⟩, hload, hstage⟩ := h
  obtain ⟨before, after, rfl⟩ := List.append_of_mem hload
  refine ⟨_, .advance before after input stage hstage t, ?_⟩
  have hpos : stage.remaining ≠ 0 := fun hzero => hstage (LoadStage.isDone_of_remaining hzero)
  have hstep := l.remaining_advance p c input (stage, t)
  simp only [remaining, List.map_append, List.map_cons, List.sum_append, List.sum_cons]
  dsimp only at hstep
  omega

/-- Loads can always be brought to their end. -/
theorem exists_run_isDone (r : Loading) : ∃ r', Run l p c r r' ∧ r'.IsDone := by
  induction hn : r.remaining using Nat.strong_induction_on generalizing r with
  | _ n ih =>
    by_cases hdone : r.IsDone
    · exact ⟨r, .refl, hdone⟩
    · obtain ⟨r', hstep, hlt⟩ := exists_step l p c hdone
      obtain ⟨r'', hrun, hdone'⟩ := ih _ (hn ▸ hlt) r' rfl
      exact ⟨r'', .head hstep hrun, hdone'⟩

end

section

variable {l : Loader} {p : Parser} {c : ParserConfig} {t : FileTree} {inputs : List String}
  {target : String → Location} {outcome : String → Outcome} {written : String → Option ByteArray}

/-- Each load is where it would be after some steps on its own. -/
structure Follows (l : Loader) (p : Parser) (c : ParserConfig) (t : FileTree)
    (inputs : List String) (target : String → Location) (r : Loading) : Prop where
  sources : r.loads.map Prod.fst = inputs
  files : t.DiffersAt (l.targets t inputs) r.files
  alone : ∀ load ∈ r.loads, ∃ n, l.Agree t inputs (target load.1) (load.2, r.files)
    ((l.advance p c load.1)^[n] (.waiting, t))

theorem follows_start (h : l.Apart t inputs target) :
    Follows l p c t inputs target (start inputs t) where
  sources := by simp [start, Function.comp_def]
  files := h.differsAt_self
  alone := by
    intro load hload
    obtain ⟨input, hinput, rfl⟩ := List.mem_map.mp hload
    exact ⟨0, rfl, rfl, h.differsAt_self, h.differsAt_self⟩

theorem Follows.step (h : l.Apart t inputs target)
    (hwrites : l.WritesTargets p c t inputs outcome written) {r r' : Loading}
    (hr : Follows l p c t inputs target r) (hstep : Step l p c r r') :
    Follows l p c t inputs target r' := by
  obtain ⟨before, after, input, stage, -, u⟩ := hstep
  obtain ⟨hsources, hu, halone⟩ := hr
  have hinput : input ∈ inputs := by simp [← hsources]
  have hadvance := Loader.advance_differsAt h hwrites hu hinput stage
  have hfiles := hu.trans (h.singleton_subset hinput) hadvance
  refine ⟨by simpa using hsources, hfiles, ?_⟩
  -- a source has one load
  have hnodup := h.nodup
  rw [← hsources, List.map_append, List.map_cons] at hnodup
  have habsent := (List.nodup_cons.mp (List.nodup_middle.mp hnodup)).1
  rw [← List.map_append] at habsent
  have hother (load : String × LoadStage) (hload : load ∈ before ++ after) :
      ∃ n, l.Agree t inputs (target load.1) (load.2, (l.advance p c input (stage, u)).2)
        ((l.advance p c load.1)^[n] (.waiting, t)) := by
    have hold : load ∈ before ++ (input, stage) :: after := by
      rcases List.mem_append.mp hload with hbefore | hafter
      · exact List.mem_append_left _ hbefore
      · exact List.mem_append_right _ (List.mem_cons_of_mem _ hafter)
    have hmem : load.1 ∈ inputs := hsources ▸ List.mem_map_of_mem hold
    have hplace : target load.1 ∉ ({target input} : Set Location) := by
      intro heq
      exact habsent (List.mem_map.mpr ⟨load, hload, h.inj load.1 hmem input hinput heq⟩)
    obtain ⟨n, hagree⟩ := halone load hold
    refine ⟨n, hagree.stage, ?_, hfiles, hagree.right⟩
    rw [hadvance.others _ hplace]
    exact hagree.entry
  intro load hload
  rcases List.mem_append.mp hload with hbefore | hrest
  · exact hother load (List.mem_append_left _ hbefore)
  rcases List.mem_cons.mp hrest with rfl | hafter
  · obtain ⟨n, hagree⟩ := halone (input, stage) (by simp)
    refine ⟨n + 1, ?_⟩
    rw [Function.iterate_succ_apply']
    exact hagree.advance h hwrites hinput
  · exact hother load (List.mem_append_right _ hafter)

theorem Follows.run (h : l.Apart t inputs target)
    (hwrites : l.WritesTargets p c t inputs outcome written) {r r' : Loading}
    (hr : Follows l p c t inputs target r) (hrun : Run l p c r r') :
    Follows l p c t inputs target r' := by
  induction hrun with
  | refl => exact hr
  | tail _ hstep ih => exact ih.step h hwrites hstep

/-! ### The end -/

/-- A load that is done gives what it gives on its own, and leaves the same at
its target. -/
theorem Follows.done {r : Loading} (hr : Follows l p c t inputs target r) {input : String}
    {result : Except Error Descriptor} (hload : (input, .done result) ∈ r.loads) :
    result = (l.provide p c t input).1 ∧
      r.files.get? (target input) = (l.provide p c t input).2.get? (target input) := by
  obtain ⟨n, hagree⟩ := hr.alone _ hload
  have hprovide := l.provide_of_iterate p c input hagree.stage.symm
  rw [hprovide]
  exact ⟨rfl, hagree.entry⟩

theorem Follows.loads_eq {r : Loading} (hr : Follows l p c t inputs target r) (hdone : r.IsDone) :
    r.loads = inputs.map fun input => (input, .done (l.provide p c t input).1) := by
  rw [← hr.sources, List.map_map]
  refine (List.map_id r.loads).symm.trans (List.map_congr_left fun load hload => ?_)
  obtain ⟨input, stage⟩ := load
  obtain ⟨result, rfl⟩ : stage.IsDone := hdone _ hload
  rw [(hr.done hload).1]
  rfl

/-- The run over the sources that loads them one after another. -/
theorem extract_provide (h : l.Apart t inputs target)
    (hwrites : l.WritesTargets p c t inputs outcome written) :
    (CorpusRun.extract (l.provide p c) t inputs).1 =
      .ofResults (fun input => (l.provide p c t input).1) inputs := by
  -- the targets of the sources that are left are as they were
  let I (rest : List String) (u : FileTree) : Prop :=
    rest.Nodup ∧ rest ⊆ inputs ∧ t.DiffersAt (l.targets t inputs) u ∧
      ∀ input ∈ rest, u.get? (target input) = t.get? (target input)
  have hstep : ∀ input rest u, I (input :: rest) u →
      (l.provide p c u input).1 = (l.provide p c t input).1 ∧ I rest (l.provide p c u input).2 := by
    rintro input rest u ⟨hnodup, hsub, hu, hleft⟩
    obtain ⟨hinput, hrest⟩ := List.cons_subset.mp hsub
    obtain ⟨habsent, hnodup⟩ := List.nodup_cons.mp hnodup
    have hagree : l.Agree t inputs (target input) (.waiting, u) (.waiting, t) :=
      ⟨rfl, hleft input List.mem_cons_self, hu, h.differsAt_self⟩
    have hthree := hagree.iterate h hwrites hinput 3
    have hadvance := Loader.iterate_differsAt h hwrites hu hinput .waiting 3
    rw [Loader.advance_provide] at hadvance
    rw [Loader.advance_provide, Loader.advance_provide] at hthree
    refine ⟨LoadStage.done.inj hthree.stage, hnodup, hrest, hthree.left, fun input' hinput' => ?_⟩
    have hplace : target input' ∉ ({target input} : Set Location) := fun heq =>
      habsent (h.inj input' (hrest hinput') input hinput heq ▸ hinput')
    rw [hadvance.others _ hplace]
    exact hleft input' (List.mem_cons_of_mem _ hinput')
  exact (CorpusRun.extract_eq hstep ⟨h.nodup, List.Subset.refl _, h.differsAt_self,
    fun _ _ => rfl⟩).1

theorem corpusRun_eq {r : Loading} {result : String → Except Error Descriptor}
    (hloads : r.loads = inputs.map fun input => (input, .done (result input))) :
    r.corpusRun = .ofResults result inputs := by
  rw [corpusRun, hloads, List.filterMap_map, CorpusRun.ofResults]
  congr 1
  exact congrFun List.filterMap_eq_map' inputs

/-- What loads come to that do not disturb each other. -/
structure Undisturbed (l : Loader) (p : Parser) (c : ParserConfig) (t : FileTree)
    (inputs : List String) (outcome : String → Outcome) (written : String → Option ByteArray)
    (r : Loading) : Prop where
  /-- Each source is loaded as it is on its own. -/
  loads : r.loads = inputs.map fun input => (input, .done (l.provide p c t input).1)
  corpusRun : r.corpusRun = (CorpusRun.extract (l.provide p c) t inputs).1
  /-- A load decodes the text that the parser wrote for its own source. -/
  decoded : ∀ input ∈ inputs, ∀ output text,
    (outcome input).output c.program input = .ok output → written input = some text.toUTF8 →
      (input, .done ((Descriptor.read text).mapError fun e => .noTree input e.message)) ∈ r.loads
  removed : l.retain = false → ∀ input ∈ inputs, ∀ d, (input, .done (.ok d)) ∈ r.loads →
    ∀ q, t.locate (l.jsonPath input) = .ok q → r.files.get? q = none
  retained : l.retain = true → ∀ input ∈ inputs, ∀ content, written input = some content →
    ∀ q, t.locate (l.jsonPath input) = .ok q → r.files.get? q = some (.file content)
  others : ∀ q, (∀ input ∈ inputs, t.locate (l.jsonPath input) ≠ .ok q) →
    r.files.get? q = t.get? q

theorem Follows.undisturbed (h : l.Apart t inputs target)
    (hwrites : l.WritesTargets p c t inputs outcome written) {r : Loading}
    (hr : Follows l p c t inputs target r) (hdone : r.IsDone) :
    Undisturbed l p c t inputs outcome written r := by
  have hloads := hr.loads_eq hdone
  have hload (input : String) (hinput : input ∈ inputs) :
      (input, .done (l.provide p c t input).1) ∈ r.loads := by
    rw [hloads]
    exact List.mem_map_of_mem hinput
  have htarget (input : String) (hinput : input ∈ inputs) {q : Location}
      (hq : t.locate (l.jsonPath input) = .ok q) : target input = q :=
    Except.ok.inj ((h.locate input hinput).symm.trans hq)
  refine ⟨hloads, ?_, ?_, ?_, ?_, ?_⟩
  · rw [corpusRun_eq hloads, extract_provide h hwrites]
  · intro input hinput output text houtput htext
    rw [← Loader.provide_text h hwrites hinput houtput htext]
    exact hload input hinput
  · intro hretain input hinput d hd q hq
    obtain ⟨hresult, hentry⟩ := hr.done hd
    rw [← htarget input hinput hq, hentry]
    exact Loader.provide_removed h hwrites hinput hretain hresult.symm
  · intro hretain input hinput content hcontent q hq
    obtain ⟨-, hentry⟩ := hr.done (hload input hinput)
    rw [← htarget input hinput hq, hentry]
    exact Loader.provide_retained h hwrites hinput hretain hcontent
  · intro q hq
    refine hr.files.others q ?_
    rintro ⟨input, hinput, hmem⟩
    exact hq input hinput hmem

end

/-- Different files of one directory can be loaded at the same time: whatever
the order of the steps, no load disturbs another one. Wherever the loads are,
they can be brought to their end. -/
theorem undisturbed_of_run (l : Loader) (p : Parser) (c : ParserConfig) {t : FileTree}
    {directory : String} {names : List String} {outcome : String → Outcome}
    {written : String → Option ByteArray} (hnames : ∀ name ∈ names, Path.IsName name)
    (hdistinct : names.Nodup)
    (hreach : ∀ name ∈ names, ∃ q, t.locate (l.jsonPath (Path.join directory name)) = .ok q ∧
      t.isDirectory q = false)
    (hwrites : l.WritesTargets p c t (names.map (Path.join directory)) outcome written)
    {r : Loading} (hrun : Run l p c (start (names.map (Path.join directory)) t) r) :
    (∃ r', Run l p c r r' ∧ r'.IsDone) ∧
      (r.IsDone →
        Undisturbed l p c t (names.map (Path.join directory)) outcome written r) := by
  obtain ⟨target, h⟩ := Loader.exists_apart hnames hdistinct hreach
  refine ⟨exists_run_isDone l p c r, fun hdone => ?_⟩
  exact ((follows_start h).run h hwrites hrun).undisturbed h hwrites hdone

/-! ### Files that share a stem -/

/-- A document for some sources, and a cut one for any other. -/
def documentOf (input : String) : String :=
  if input = "js/a.js" then Parser.literalText
  else if input = "js/a" then Parser.unknownText
  else "["

/-- A parser that writes a document of the source to its target. -/
def writing : Parser := fun command t =>
  match command.arguments with
  | [_, input, target] =>
    (.ended (.code 0) .empty .empty,
      (t.write target (documentOf input).toUTF8).toOption.getD t)
  | _ => (.notStarted "no source", t)

def documentsTree : FileTree := (FileTree.ofDirectory []).set ["ast"] .directory

def passingLoader : Loader := ⟨"ast", false⟩

theorem undisturbed_writing :
    ∃ r, Run passingLoader writing {}
        (start ["js/a.js", "js/a", "js/a.js.json"] documentsTree) r ∧ r.IsDone ∧
      ("js/a.js", .done (.ok Parser.literalDescriptor)) ∈ r.loads ∧
      ("js/a", .done (.ok Parser.unknownDescriptor)) ∈ r.loads ∧
      r.files.get? ["ast", "a.js.json"] = none := by
  let names := ["a.js", "a", "a.js.json"]
  have hnames : ∀ name ∈ names, Path.IsName name := by
    intro name hname
    simp only [names, List.mem_cons, List.not_mem_nil, or_false] at hname
    rcases hname with rfl | rfl | rfl <;> exact ⟨by decide, by decide, by decide⟩
  have hreach : ∀ name ∈ names, ∃ q,
      documentsTree.locate (passingLoader.jsonPath (Path.join "js" name)) = .ok q ∧
        documentsTree.isDirectory q = false := by
    intro name hname
    simp only [names, List.mem_cons, List.not_mem_nil, or_false] at hname
    rcases hname with rfl | rfl | rfl
    · exact ⟨["ast", "a.js.json"], by with_unfolding_all rfl, rfl⟩
    · exact ⟨["ast", "a.json"], by with_unfolding_all rfl, rfl⟩
    · exact ⟨["ast", "a.js.json.json"], by with_unfolding_all rfl, rfl⟩
  have hinputs : names.map (Path.join "js") = ["js/a.js", "js/a", "js/a.js.json"] := by
    with_unfolding_all rfl
  have hwrites : passingLoader.WritesTargets writing {} documentsTree (names.map (Path.join "js"))
      (fun _ => .ended (.code 0) .empty .empty)
      (fun input => some (documentOf input).toUTF8) := by
    intro input _ u _
    simp only [writing, Command.parse, Option.getD_some, Option.elim_some]
  have hdistinct : names.Nodup := by decide
  obtain ⟨r, hrun, hdone⟩ :=
    (undisturbed_of_run passingLoader writing {} hnames hdistinct hreach hwrites .refl).1
  obtain ⟨-, hend⟩ :=
    undisturbed_of_run passingLoader writing {} hnames hdistinct hreach hwrites hrun
  have h := hend hdone
  rw [hinputs] at hrun h
  have hliteral := h.decoded "js/a.js" (by simp) .empty Parser.literalText rfl rfl
  have hunknown := h.decoded "js/a" (by simp) .empty Parser.unknownText rfl rfl
  rw [Parser.read_literalText] at hliteral
  rw [Parser.read_unknownText] at hunknown
  refine ⟨r, hrun, hdone, hliteral, hunknown, ?_⟩
  refine h.removed rfl "js/a.js" (by simp) _ hliteral ["ast", "a.js.json"] ?_
  with_unfolding_all rfl

end Loading

end ScriptFeatures
