import ScriptFeatures.Config
import ScriptFeatures.Proofs.Parser.Blocks

/-!
Which configured delimiters separate documents. A configuration may set every
delimiter but the empty one. One with a line break is accepted too, but what
the parser prints is searched only after its line breaks are left out: such a
delimiter is never found, and all documents come out as one block.
-/

namespace ScriptFeatures.Config

/-- An accepted configuration names a program and a delimiter, and asks for at
least one worker if it asks for a number of them. -/
theorem validate_eq_ok_iff (c : Config) :
    c.validate = .ok () ↔
      (Text.trim c.parser.program).isEmpty = false ∧ c.parser.delimiter ≠ "" ∧
        c.workers ≠ some 0 := by
  rw [validate]
  split
  · next hprogram => simp [hprogram]
  · next hprogram =>
    split
    · next hdelimiter => simp [String.isEmpty_iff.mp hdelimiter]
    · next hdelimiter =>
      have hne : c.parser.delimiter ≠ "" := fun h => hdelimiter (String.isEmpty_iff.mpr h)
      simp [hprogram, hne]

theorem delimiter_ne_empty {c : Config} (h : c.validate = .ok ()) : c.parser.delimiter ≠ "" :=
  ((validate_eq_ok_iff c).mp h).2.1

/-- An accepted delimiter separates whatever stands around it if it has no line
break. If it has one, every text that the parser prints is a single block. -/
theorem two_le_length_blocks_iff (c : Config) (h : c.validate = .ok ()) :
    (∀ a b, 2 ≤ (Stream.blocks (a ++ c.parser.delimiter ++ b) c.parser.delimiter).length ↔
      '\n' ∉ c.parser.delimiter.toList) ∧
    ('\n' ∈ c.parser.delimiter.toList → ∀ text,
      Stream.blocks text c.parser.delimiter = [Stream.unbroken text]) := by
  refine ⟨fun a b => ⟨fun htwo hline => ?_, fun hline => ?_⟩, Stream.blocks_eq_singleton⟩
  · rw [Stream.blocks_eq_singleton hline, List.length_singleton] at htwo
    omega
  · exact Stream.two_le_length_blocks (delimiter_ne_empty h) hline a b

/-- Two dashes on a line of their own stand between two documents. -/
def dashes : Config := { parser := { delimiter := "\n--\n" } }

theorem two_le_length_blocks_iff_dashes :
    dashes.validate = .ok () ∧
      Stream.blocks "a\n--\nb" dashes.parser.delimiter = [Stream.unbroken "a\n--\nb"] := by
  have haccepted : dashes.validate = .ok () := rfl
  have hline : '\n' ∈ dashes.parser.delimiter.toList := by simp [dashes]
  exact ⟨haccepted, (two_le_length_blocks_iff dashes haccepted).2 hline "a\n--\nb"⟩

/-- Not every accepted delimiter separates. -/
theorem not_forall_two_le_length_blocks :
    ¬ ∀ c : Config, c.validate = .ok () → ∀ a b,
      2 ≤ (Stream.blocks (a ++ c.parser.delimiter ++ b) c.parser.delimiter).length := by
  intro hall
  have hone : Stream.blocks "a\n--\nb" "\n--\n" = ["a--b"] := by rfl
  have htwo : 2 ≤ (Stream.blocks "a\n--\nb" "\n--\n").length := hall dashes rfl "a" "b"
  rw [hone, List.length_singleton] at htwo
  omega

end ScriptFeatures.Config
