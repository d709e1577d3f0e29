import ScriptFeatures.Json.Printer
import ScriptFeatures.Proofs.Json.Ending

/-!
Texts as tokens. A value is written as a list of tokens, which the printer
writes one after the other (`Value.flatten_tokens`), and the same tokens may be
written with any spaces between them (`Spaced`).
-/

namespace ScriptFeatures.Json

/-- A bracket, a mark, a word, a number or a string. -/
abbrev Token := List Char

/-! ### Spaces -/

def spaces : List Char := [' ', '\t', '\n', '\r']

theorem isSpace_eq_true {c : Char} : Reader.isSpace c = true ↔ c ∈ spaces := by
  simp [Reader.isSpace, spaces, or_assoc]

theorem all_isSpace {cs : List Char} :
    cs.all Reader.isSpace = true ↔ ∀ c ∈ cs, c ∈ spaces := by
  simp only [List.all_eq_true, isSpace_eq_true]

/-- The texts of some tokens, with any spaces behind each of them. -/
inductive Spaced : List Token → List Char → Prop
  | nil : Spaced [] []
  | cons (token : Token) {blank : List Char} (hblank : ∀ c ∈ blank, c ∈ spaces)
      {tokens : List Token} {text : List Char} (h : Spaced tokens text) :
      Spaced (token :: tokens) (token ++ blank ++ text)

/-- Texts of tokens break where the lists of tokens do. -/
theorem Spaced.exists_append {tokens more : List Token} {text : List Char}
    (h : Spaced (tokens ++ more) text) :
    ∃ front back, Spaced tokens front ∧ Spaced more back ∧ text = front ++ back := by
  induction tokens generalizing text with
  | nil => exact ⟨[], text, .nil, h, rfl⟩
  | cons token tokens ih =>
    cases h with
    | cons _ hblank h =>
      obtain ⟨front, back, hfront, hback, rfl⟩ := ih h
      exact ⟨_, back, .cons token hblank hfront, hback, (List.append_assoc ..).symm⟩

theorem spaced_flatMap {blank : List Char} (hblank : ∀ c ∈ blank, c ∈ spaces)
    (tokens : List Token) : Spaced tokens (tokens.flatMap (· ++ blank)) := by
  induction tokens with
  | nil => exact .nil
  | cons token tokens ih => exact .cons token hblank ih

/-! ### Tokens of values -/

def enclosed (opening closing : Char) : List (List Token) → List Token
  | [] => [[opening], [closing]]
  | part :: parts =>
    [opening] :: part ++ parts.flatMap (fun part => [','] :: part) ++ [[closing]]

def memberTokens (name : Token) (value : List Token) : List Token := name :: [':'] :: value

mutual

def Value.tokens : Value → List Token
  | .null => [['n', 'u', 'l', 'l']]
  | .bool b => [wordText b]
  | .number n => [n.text]
  | .string s => [stringText s]
  | .array items => enclosed '[' ']' (itemsTokens items)
  | .object members => enclosed '\x7b' '\x7d' (membersTokens members)

def itemsTokens : List Value → List (List Token)
  | [] => []
  | v :: vs => v.tokens :: itemsTokens vs

def membersTokens : List (String × Value) → List (List Token)
  | [] => []
  | (name, v) :: ms => memberTokens (stringText name) v.tokens :: membersTokens ms

end

theorem itemsTokens_eq_map (items : List Value) : itemsTokens items = items.map Value.tokens := by
  induction items with
  | nil => rfl
  | cons v vs ih => rw [itemsTokens, ih, List.map_cons]

theorem membersTokens_eq_map (members : List (String × Value)) :
    membersTokens members =
      members.map fun m => memberTokens (stringText m.1) m.2.tokens := by
  induction members with
  | nil => rfl
  | cons m ms ih => rw [membersTokens, ih, List.map_cons]

mutual

/-- The printer writes the tokens of a value without spaces. -/
theorem Value.flatten_tokens : ∀ v : Value, v.tokens.flatten = v.compact
  | .null => rfl
  | .bool b => List.append_nil _
  | .number n => List.append_nil _
  | .string s => List.append_nil _
  | .array [] => rfl
  | .array (v :: vs) => by
    rw [Value.tokens, itemsTokens, enclosed, Value.compact, ← flatten_itemsTokens vs,
      ← v.flatten_tokens]
    simp
  | .object [] => rfl
  | .object ((name, v) :: ms) => by
    rw [Value.tokens, membersTokens, enclosed, Value.compact, ← flatten_membersTokens ms,
      ← v.flatten_tokens]
    simp [memberTokens]

theorem flatten_itemsTokens : ∀ vs : List Value,
    ((itemsTokens vs).flatMap (fun part => [','] :: part) ++ [[']']]).flatten = compactItems vs
  | [] => rfl
  | v :: vs => by
    rw [itemsTokens, compactItems, ← flatten_itemsTokens vs, ← v.flatten_tokens]
    simp

theorem flatten_membersTokens : ∀ ms : List (String × Value),
    ((membersTokens ms).flatMap (fun part => [','] :: part) ++ [['\x7d']]).flatten =
      compactMembers ms
  | [] => rfl
  | (name, v) :: ms => by
    rw [membersTokens, compactMembers, ← flatten_membersTokens ms, ← v.flatten_tokens]
    simp [memberTokens]

end

end ScriptFeatures.Json
