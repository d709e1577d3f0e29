import ScriptFeatures.Parser.Run
import ScriptFeatures.Proofs.Path.Extension

/-!
What the command says to the parser. A command has one argument for the target,
and the parser prints if that argument is `printTarget`. No target that is made
from a source is called so (`ParseTarget.path?_eq_printTarget`), but a given path
can be: it is the only path that is taken for a request to print, and otherwise
a command says which source and which target are meant (`Command.parse_eq_iff`).
-/

namespace ScriptFeatures

open ScriptFeatures.Path

/-! ### Targets -/

/-- The ways to say where the document of a source goes. -/
inductive ParseTarget
  | printed
  | given (path : String)
  | beside (input : String)
  | stored (l : Loader) (input : String)

def ParseTarget.path? : ParseTarget → Option String
  | .printed => none
  | .given path => some path
  | .beside input => some (defaultJsonPath input)
  | .stored l input => some (l.jsonPath input)

theorem append_json_ne (text : String) : text ++ ".json" ≠ printTarget :=
  append_ne_of_length_lt (by decide)

theorem defaultJsonPath_ne (input : String) : defaultJsonPath input ≠ printTarget := by
  rw [defaultJsonPath]
  split
  · rcases setExtension_cases _ "json" with ⟨hnone, hpath⟩ | ⟨text, htext⟩
    · rw [withExtension, hpath]
      intro heq
      rw [heq] at hnone
      contradiction
    · rw [withExtension, htext]
      exact append_json_ne text
  · exact append_json_ne input

theorem jsonPathIn_ne (directory input : String) : jsonPathIn directory input ≠ printTarget := by
  obtain ⟨text, htext⟩ := exists_join directory ((fileName? input).getD "ast" ++ ".json")
  rw [jsonPathIn, htext, ← String.append_assoc]
  exact append_json_ne _

/-- A file is called like the request to print only if it was given so. -/
theorem ParseTarget.path?_eq_printTarget (target : ParseTarget) :
    target.path? = some printTarget ↔ target = .given printTarget := by
  cases target with
  | printed => simp [path?]
  | given path => simp [path?]
  | beside input => simpa [path?] using defaultJsonPath_ne input
  | stored l input => simpa [path?, Loader.jsonPath] using jsonPathIn_ne l.directory input

theorem ParseTarget.path?_eq_none (target : ParseTarget) :
    target.path? = none ↔ target = .printed := by
  cases target <;> simp [path?]

/-! ### Commands -/

theorem getD_eq_getD_iff {a : String} {x y : Option String} :
    x.getD a = y.getD a ↔ x = y ∨ (x = none ∧ y = some a) ∨ (x = some a ∧ y = none) := by
  cases x <;> cases y <;> simp [eq_comm]

theorem Command.parse_eq_parse_iff {c : ParserConfig} {input input' : String}
    {x y : Option String} :
    Command.parse c input x = Command.parse c input' y ↔
      input = input' ∧ (x = y ∨ (x = none ∧ y = some printTarget) ∨
        (x = some printTarget ∧ y = none)) := by
  simp [Command.parse, getD_eq_getD_iff]

/-- A command says which source it is for and where the document goes, but for
one clash: a given path that is called like the request to print. So a load
from a file has the parser print exactly if it was given that path. -/
theorem Command.parse_eq_iff (c : ParserConfig) (input input' : String)
    (target target' : ParseTarget) :
    (Command.parse c input target.path? = Command.parse c input' target'.path? ↔
      input = input' ∧ (target.path? = target'.path? ∨
        (target = .printed ∧ target' = .given printTarget) ∨
        (target = .given printTarget ∧ target' = .printed))) ∧
      ∀ path, target.path? = some path →
        (Command.parse c input (some path) = Command.parse c input none ↔
          target = .given printTarget) := by
  refine ⟨?_, fun path hpath => ?_⟩
  · rw [parse_eq_parse_iff]
    simp only [ParseTarget.path?_eq_none, ParseTarget.path?_eq_printTarget]
  · rw [parse_eq_parse_iff, ← ParseTarget.path?_eq_printTarget, hpath]
    simp

/-- The default target of a script is a file; the given path `1` is none. -/
theorem Command.parse_eq_iff_script :
    Command.parse {} "a.js" (some "a.json") ≠ Command.parse {} "a.js" none ∧
      Command.parse {} "a.js" (some "1") = Command.parse {} "a.js" none := by
  have hbeside : (ParseTarget.beside "a.js").path? = some "a.json" := by
    with_unfolding_all rfl
  have hfile := (parse_eq_iff {} "a.js" "a.js" (.beside "a.js") .printed).2 _ hbeside
  have hgiven := (parse_eq_iff {} "a.js" "a.js" (.given "1") .printed).2 "1" rfl
  refine ⟨fun heq => ?_, hgiven.mpr rfl⟩
  have htarget := hfile.mp heq
  contradiction

/-- Commands do not tell all targets apart: the parser prints what it should
write to a file of that name. -/
theorem Command.not_forall_parse_injective :
    ¬ ∀ (c : ParserConfig) (input input' : String) (target target' : ParseTarget),
      Command.parse c input target.path? = Command.parse c input' target'.path? →
        input = input' ∧ target.path? = target'.path? := by
  intro hall
  have hsame : Command.parse {} "a.js" (ParseTarget.given "1").path? =
      Command.parse {} "a.js" ParseTarget.printed.path? := rfl
  obtain ⟨-, hpath⟩ := hall _ _ _ _ _ hsame
  contradiction

end ScriptFeatures
