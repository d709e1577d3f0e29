import ScriptFeatures.Proofs.Json.Tokens

/-!
The printer on many lines writes the tokens of a value with line breaks and
spaces between them.
-/

namespace ScriptFeatures.Json

theorem newLine_subset (level : Nat) : ∀ c ∈ newLine level, c ∈ spaces := by
  intro c h
  rcases List.mem_cons.mp h with rfl | h
  · simp [spaces]
  · rw [List.eq_of_mem_replicate h]
    simp [spaces]

namespace Spaced

variable {tokens more : List Token} {text text' blank : List Char}

theorem append (h : Spaced tokens text) (h' : Spaced more text') :
    Spaced (tokens ++ more) (text ++ text') := by
  induction h with
  | nil => exact h'
  | cons token hblank _ ih =>
    rw [List.append_assoc]
    exact .cons token hblank ih

theorem singleton (token : Token) (hblank : ∀ c ∈ blank, c ∈ spaces) :
    Spaced [token] (token ++ blank) := by
  have h := cons token hblank nil
  rwa [List.append_nil] at h

theorem flatten (tokens : List Token) : Spaced tokens tokens.flatten := by
  induction tokens with
  | nil => exact .nil
  | cons token tokens ih =>
    have h := cons token (fun c hc => absurd hc List.not_mem_nil) ih
    rwa [List.append_nil] at h

theorem append_blank (h : Spaced tokens text) (hne : tokens ≠ [])
    (hblank : ∀ c ∈ blank, c ∈ spaces) : Spaced tokens (text ++ blank) := by
  induction h with
  | nil => contradiction
  | @cons token blank' hblank' tokens text h ih =>
    cases tokens with
    | nil =>
      cases h
      rw [List.append_nil, List.append_assoc]
      exact singleton token (List.forall_mem_append.mpr ⟨hblank', hblank⟩)
    | cons next tokens =>
      rw [List.append_assoc]
      exact .cons token hblank' (ih (List.cons_ne_nil next tokens))

end Spaced

theorem Spaced.member (name : Token) {value : List Token} {text : List Char}
    (h : Spaced value text) : Spaced (memberTokens name value) (name ++ ':' :: ' ' :: text) := by
  have hcolon : Spaced [name, [':']] ([name, [':']].flatten ++ [' ']) :=
    (flatten _).append_blank (by simp) (by simp [spaces])
  simpa [memberTokens] using hcolon.append h

mutual

/-- The printer writes the tokens of a value with spaces between them. -/
theorem Value.spaced_pretty : ∀ (v : Value) (level : Nat), Spaced v.tokens (v.pretty level)
  | .null, _ | .bool _, _ | .number _, _ | .string _, _ => by
    simpa [Value.tokens, Value.pretty] using Spaced.flatten [_]
  | .array [], _ => .flatten [['['], [']']]
  | .array (v :: vs), level => by
    have hopening : Spaced [['[']] (['['] ++ newLine (level + 1)) := .singleton _ (newLine_subset _)
    have hitems := spaced_prettyItems vs level (hopening.append (v.spaced_pretty (level + 1)))
      (by simp)
    simpa [Value.tokens, itemsTokens, enclosed, Value.pretty] using hitems
  | .object [], _ => .flatten [['\x7b'], ['\x7d']]
  | .object ((name, v) :: ms), level => by
    have hopening : Spaced [['\x7b']] (['\x7b'] ++ newLine (level + 1)) :=
      .singleton _ (newLine_subset _)
    have hmember := (v.spaced_pretty (level + 1)).member (stringText name)
    have hmembers := spaced_prettyMembers ms level (hopening.append hmember) (by simp)
    simpa [Value.tokens, membersTokens, enclosed, Value.pretty] using hmembers

/-- What is written behind the first element goes on with a comma or ends the
list. -/
theorem spaced_prettyItems : ∀ (vs : List Value) (level : Nat) {tokens : List Token}
    {text : List Char}, Spaced tokens text → tokens ≠ [] →
      Spaced (tokens ++ ((itemsTokens vs).flatMap (fun part => [','] :: part) ++ [[']']]))
        (text ++ prettyItems level vs)
  | [], level, tokens, text, h, hne => by
    have hclosing : Spaced [[']']] [']'] := .flatten [[']']]
    have hlast := (h.append_blank hne (newLine_subset level)).append hclosing
    simpa [itemsTokens, prettyItems] using hlast
  | v :: vs, level, tokens, text, h, hne => by
    have hcomma : Spaced [[',']] ([','] ++ newLine (level + 1)) := .singleton _ (newLine_subset _)
    have hmore := h.append (hcomma.append (v.spaced_pretty (level + 1)))
    have hitems := spaced_prettyItems vs level hmore (by simp)
    simpa [itemsTokens, prettyItems] using hitems

theorem spaced_prettyMembers : ∀ (ms : List (String × Value)) (level : Nat) {tokens : List Token}
    {text : List Char}, Spaced tokens text → tokens ≠ [] →
      Spaced (tokens ++ ((membersTokens ms).flatMap (fun part => [','] :: part) ++ [['\x7d']]))
        (text ++ prettyMembers level ms)
  | [], level, tokens, text, h, hne => by
    have hclosing : Spaced [['\x7d']] ['\x7d'] := .flatten [['\x7d']]
    have hlast := (h.append_blank hne (newLine_subset level)).append hclosing
    simpa [membersTokens, prettyMembers] using hlast
  | (name, v) :: ms, level, tokens, text, h, hne => by
    have hcomma : Spaced [[',']] ([','] ++ newLine (level + 1)) := .singleton _ (newLine_subset _)
    have hmember := (v.spaced_pretty (level + 1)).member (stringText name)
    have hmembers := spaced_prettyMembers ms level (h.append (hcomma.append hmember)) (by simp)
    simpa [membersTokens, prettyMembers] using hmembers

end

end ScriptFeatures.Json
