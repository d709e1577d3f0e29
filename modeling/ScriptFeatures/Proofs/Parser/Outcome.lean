import ScriptFeatures.Parser.Stored
import ScriptFeatures.Proofs.FileTree
import ScriptFeatures.Proofs.Parser.Documents

/-!
What one load comes to. A load succeeds exactly when the parser does and leaves
a document at the target, and every failure names the source. Only a success
has an effect of its own: unless the document is to be kept, its file is removed
and no other, and if the system refuses to, the load succeeds all the same
(`Parser.loadWith_outcome`).
-/

namespace ScriptFeatures

/-- The parser ran and said that it was successful. -/
def Outcome.Succeeded (o : Outcome) : Prop := ∃ output errors, o = .ended (.code 0) output errors

theorem Outcome.output_cases (program input : String) (o : Outcome) :
    (o.Succeeded ∧ ∃ output, o.output program input = .ok output) ∨
      (¬ o.Succeeded ∧ ∃ reason, o.output program input = .error (.noTree input reason)) := by
  cases o with
  | notStarted reason =>
    refine .inr ⟨?_, _, rfl⟩
    rintro ⟨output, errors, ho⟩
    contradiction
  | ended status output errors =>
    by_cases hstatus : status = .code 0
    · rw [hstatus]
      exact .inl ⟨⟨output, errors, rfl⟩, output, rfl⟩
    · refine .inr ⟨?_, ?_⟩
      · rintro ⟨output', errors', ho⟩
        cases ho
        exact hstatus rfl
      · rw [Outcome.output]
        · exact ⟨_, rfl⟩
        · exact hstatus

namespace Parser

theorem documentAt_eq_ok {t : FileTree} (input : String) {path : String} {d : Descriptor} :
    documentAt t input path = .ok d ↔
      ∃ text, t.readText path = .ok text ∧ Descriptor.read text = .ok d := by
  rw [documentAt]
  cases t.readText path with
  | error e => simp
  | ok text => cases hread : Descriptor.read text <;> simp [hread]

theorem documentAt_eq_error {t : FileTree} {input path : String} {e : Error}
    (h : documentAt t input path = .error e) : ∃ reason, e = .noTree input reason := by
  rw [documentAt] at h
  split at h
  · cases h
    exact ⟨_, rfl⟩
  · split at h
    · contradiction
    · cases h
      exact ⟨_, rfl⟩

/-- A load gives the document that the parser has left at the target if the
parser succeeded, and names the source in whatever goes wrong. It leaves the
files as the parser left them, except that a success that is not to be kept
removes the document and nothing else. A system may refuse to remove it, which
leaves the files and the success as they are. -/
theorem loadWith_outcome {p : Parser} {c : ParserConfig} {input path : String}
    {t u : FileTree} {o : Outcome} {remove : FileTree → String → Except FileError FileTree}
    (retain : Bool) (hrun : p (.parse c input (some path)) t = (o, u))
    (hremove : ∀ t path u, remove t path = .ok u → t.remove path = .ok u) :
    ∃ result v, p.loadWith remove c input path retain t = (result, v) ∧
      (∀ d, result = .ok d ↔
        o.Succeeded ∧ ∃ text, u.readText path = .ok text ∧ Descriptor.read text = .ok d) ∧
      (∀ e, result = .error e → ∃ reason, e = .noTree input reason) ∧
      ((∃ e, result = .error e) ∨ retain = true ∨ (∃ e, remove u path = .error e) → v = u) ∧
      ∀ d, result = .ok d → retain = false →
        (∃ w, u.remove path = .ok w) ∧ ∀ w, remove u path = .ok w → v = w ∧ u.Without path v := by
  rw [loadWith, run, hrun]
  rcases o.output_cases c.program input with
    ⟨hsucceeded, output, houtput⟩ | ⟨hfailed, reason, houtput⟩
  · simp only [houtput]
    cases hdocument : documentAt u input path with
    | error e =>
      refine ⟨.error e, u, rfl, fun d => ?_, fun e' he' => ?_, fun _ => rfl, ?_⟩
      · simp [← documentAt_eq_ok input, hdocument]
      · cases he'
        exact documentAt_eq_error hdocument
      · intro d hd
        contradiction
    | ok d =>
      refine ⟨.ok d, _, rfl, fun d' => ?_, ?_, ?_, ?_⟩
      · simp [← documentAt_eq_ok input, hdocument, hsucceeded]
      · intro e he
        contradiction
      · rintro (⟨e, he⟩ | hretain | ⟨e, he⟩)
        · contradiction
        · rw [if_pos hretain]
        · rw [he]
          exact ite_self u
      · intro d' _ hretain
        obtain ⟨text, htext, -⟩ := (documentAt_eq_ok input).mp hdocument
        refine ⟨FileTree.exists_remove htext, fun w hw => ?_⟩
        have hfiles : (if retain then u else (remove u path).toOption.getD u) = w := by
          rw [hretain, hw]
          rfl
        rw [hfiles]
        exact ⟨rfl, FileTree.without_of_remove (hremove u path w hw)⟩
  · simp only [houtput]
    refine ⟨_, u, rfl, fun d => ?_, fun e he => ?_, fun _ => rfl, ?_⟩
    · simp [hfailed]
    · cases he
      exact ⟨reason, rfl⟩
    · intro d hd
      contradiction

def storedTree : FileTree :=
  ((FileTree.ofDirectory []).set ["documents"] .directory).set ["documents", "a.js.json"]
    (.file literalText.toUTF8)

def storedTreeWith (target : String) : FileTree :=
  storedTree.set [target] (.file literalText.toUTF8)

/-- A removal that is refused for one file. -/
def removeUnlessLocked (t : FileTree) (path : String) : Except FileError FileTree :=
  if path = "locked.json" then .error .isDirectory else t.remove path

/-- One document is removed and the other one cannot be; both loads succeed. -/
theorem loadWith_outcome_locked :
    (∃ v, stored.loadWith removeUnlessLocked {} "a.js" "a.json" false storedTree =
        (.ok literalDescriptor, v) ∧ (storedTreeWith "a.json").Without "a.json" v) ∧
      stored.loadWith removeUnlessLocked {} "a.js" "locked.json" false storedTree =
        (.ok literalDescriptor, storedTreeWith "locked.json") := by
  have hremove (t : FileTree) (path : String) (u : FileTree)
      (h : removeUnlessLocked t path = .ok u) : t.remove path = .ok u := by
    rw [removeUnlessLocked] at h
    split at h
    · contradiction
    · exact h
  have hsucceeded : (Outcome.ended (.code 0) .empty .empty).Succeeded := ⟨_, _, rfl⟩
  constructor
  · have hrun : stored (.parse {} "a.js" (some "a.json")) storedTree =
        (.ended (.code 0) .empty .empty, storedTreeWith "a.json") := by
      with_unfolding_all rfl
    have hplace : (storedTreeWith "a.json").locate "a.json" = .ok ["a.json"] := by
      with_unfolding_all rfl
    have htext := @FileTree.readText_eq_ok _ _ _ literalText hplace rfl
    obtain ⟨result, v, hload, hok, -, -, hremoved⟩ := loadWith_outcome false hrun hremove
    have hresult := (hok literalDescriptor).mpr ⟨hsucceeded, _, htext, read_literalText⟩
    obtain ⟨⟨w, hw⟩, hwithout⟩ := hremoved _ hresult rfl
    refine ⟨v, hresult ▸ hload, (hwithout w ?_).2⟩
    rw [removeUnlessLocked, if_neg (by decide)]
    exact hw
  · have hrun : stored (.parse {} "a.js" (some "locked.json")) storedTree =
        (.ended (.code 0) .empty .empty, storedTreeWith "locked.json") := by
      with_unfolding_all rfl
    have hplace : (storedTreeWith "locked.json").locate "locked.json" = .ok ["locked.json"] := by
      with_unfolding_all rfl
    have htext := @FileTree.readText_eq_ok _ _ _ literalText hplace rfl
    obtain ⟨result, v, hload, hok, -, hkept, -⟩ := loadWith_outcome false hrun hremove
    have hresult := (hok literalDescriptor).mpr ⟨hsucceeded, _, htext, read_literalText⟩
    have hfiles := hkept (.inr (.inr ⟨.isDirectory, if_pos rfl⟩))
    rw [hload, hresult, hfiles]

end Parser

end ScriptFeatures
