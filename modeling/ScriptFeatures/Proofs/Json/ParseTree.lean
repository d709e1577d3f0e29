import Mathlib.Data.List.Forall2
import ScriptFeatures.Proofs.Json.Kept

/-!
Values as they are written. A parse tree keeps the tokens of a text: the digits
of a number, the escapes of a string, and the members of an object with all
repetitions of a name (`ParseTree`). What it is read as depends on the shape
that is asked for (`ParseTree.Reads`).
-/

namespace ScriptFeatures.Json

inductive ParseTree
  | null
  | bool (b : Bool)
  | number (token : Token)
  | string (token : Token)
  | array (items : List ParseTree)
  | object (members : List (Token × ParseTree))

namespace ParseTree

/-! ### Tokens -/

mutual

def tokens : ParseTree → List Token
  | .null => [['n', 'u', 'l', 'l']]
  | .bool b => [wordText b]
  | .number token => [token]
  | .string token => [token]
  | .array items => enclosed '[' ']' (itemsTokens items)
  | .object members => enclosed '\x7b' '\x7d' (membersTokens members)

def itemsTokens : List ParseTree → List (List Token)
  | [] => []
  | x :: xs => x.tokens :: itemsTokens xs

def membersTokens : List (Token × ParseTree) → List (List Token)
  | [] => []
  | (name, x) :: ms => memberTokens name x.tokens :: membersTokens ms

end

theorem itemsTokens_eq_map (items : List ParseTree) :
    itemsTokens items = items.map tokens := by
  induction items with
  | nil => rfl
  | cons x xs ih => rw [itemsTokens, ih, List.map_cons]

theorem membersTokens_eq_map (members : List (Token × ParseTree)) :
    membersTokens members = members.map fun m => memberTokens m.1 m.2.tokens := by
  induction members with
  | nil => rfl
  | cons m ms ih => rw [membersTokens, ih, List.map_cons]

/-- The tokens of the leaves are numbers and strings, and names are strings. -/
inductive Lexical : ParseTree → Prop
  | null : Lexical .null
  | bool (b : Bool) : Lexical (.bool b)
  | number {token : Token} (h : IsNumber token) : Lexical (.number token)
  | string {token : Token} (h : IsString token) : Lexical (.string token)
  | array {items : List ParseTree} (hitems : ∀ x ∈ items, x.Lexical) : Lexical (.array items)
  | object {members : List (Token × ParseTree)} (hnames : ∀ m ∈ members, IsString m.1)
      (hvalues : ∀ m ∈ members, m.2.Lexical) : Lexical (.object members)

end ParseTree

theorem isString_of_plain {cs : List Char}
    (h : ∀ c ∈ cs, 0x20 ≤ c.toNat ∧ c ≠ '"' ∧ c ≠ '\\') : IsString ('"' :: cs ++ ['"']) := by
  have hunits : ∀ unit ∈ cs.map fun c => [c], IsUnit unit := by
    intro unit hunit
    obtain ⟨c, hc, rfl⟩ := List.mem_map.mp hunit
    obtain ⟨hcontrol, hquote, hbackslash⟩ := h c hc
    exact .plain hcontrol hquote hbackslash
  have hstring := IsString.mk hunits
  rwa [← List.flatMap_def, List.flatMap_singleton'] at hstring

/-! ### What is read -/

def numberOf? : Token → Option Number
  | [] => none
  | c :: cs => (scanAll (NumberScan.step false) (.start c) cs).bind (·.value.toOption)

def textOf? (token : Token) : Option String :=
  (scanAll (StringScan.step false) .start token.tail.dropLast).bind fun s =>
    if s.stage = .plain then some s.text else none

namespace ParseTree

def member? (members : List (Token × ParseTree)) (name : String) : Option ParseTree :=
  (members.find? fun m => textOf? m.1 == some name).map Prod.snd

/-- What stands at a place of a record, which is an object or the list of its
members. -/
def place? (x : ParseTree) (places : List String) (name : String) : Option ParseTree :=
  match x with
  | .object members => member? members name
  | .array items => (places.zip items).lookup name
  | _ => none

/-- What is read where a shape is asked for. The members of an object are put
one after the other, so the last one of a name gives the value. Nothing is said
of the value of a tuple. -/
inductive Reads : Shape → ParseTree → Value → Prop
  | null {shape : Shape} {v : Value} (haccept : shape.accept .null = .ok v) :
      Reads shape .null v
  | bool {shape : Shape} {b : Bool} {v : Value} (haccept : shape.accept (.bool b) = .ok v) :
      Reads shape (.bool b) v
  | number {shape : Shape} {token : Token} {n : Number} {v : Value} (hn : numberOf? token = some n)
      (haccept : shape.accept (.number n) = .ok v) : Reads shape (.number token) v
  | string {shape : Shape} {token : Token} {s : String} {v : Value} (hs : textOf? token = some s)
      (haccept : shape.accept (.string s) = .ok v) : Reads shape (.string token) v
  | list {shape element : Shape} {items : List ParseTree} {vs : List Value}
      (helement : shape.element? = some element) (hlength : items.length = vs.length)
      (hitems : ∀ p ∈ items.zip vs, Reads element p.1 p.2) : Reads shape (.array items) (.array vs)
  | object {members : List (Token × ParseTree)} {entries : Members}
      (hlength : members.length = entries.length)
      (hnames : ∀ p ∈ members.zip entries, textOf? p.1.1 = some p.2.1)
      (hvalues : ∀ p ∈ members.zip entries, Reads .any p.1.2 p.2.2) :
      Reads .any (.object members)
        (.object (entries.foldl (fun read e => Members.put read e.1 e.2) []).reverse)
  | record {name : String} {required optional : List (String × Shape)} {x : ParseTree} {v : Value}
      {read : Members} (hassemble : Reader.assemble required optional read = .ok v)
      (hplaces : ((required ++ optional).map Prod.fst).Nodup → ∀ place, (read.get? place).isSome →
        (x.place? ((required ++ optional).map Prod.fst) place).isSome)
      (hread : ((required ++ optional).map Prod.fst).Nodup → ∀ place shape y w,
        (required ++ optional).lookup place = some shape →
        x.place? ((required ++ optional).map Prod.fst) place = some y →
        read.get? place = some w → Reads shape y w) :
      Reads (.record name required optional) x v
  | tuple (places : List Shape) (x : ParseTree) (v : Value) : Reads (.tuple places) x v
  | ignored (x : ParseTree) : Reads .ignored x .null

/-- A name and a value for a member. -/
def ReadsMember (m : Token × ParseTree) (e : String × Value) : Prop :=
  textOf? m.1 = some e.1 ∧ Reads .any m.2 e.2

theorem Reads.exists_entries {x : ParseTree} {ms : Members} (h : Reads .any x (.object ms)) :
    ∃ members entries, x = .object members ∧ List.Forall₂ ReadsMember members entries ∧
      ms = (entries.foldl (fun read e => Members.put read e.1 e.2) []).reverse := by
  cases h with
  | null haccept | bool haccept | number _ haccept | string _ haccept => cases haccept
  | object hlength hnames hvalues =>
    refine ⟨_, _, rfl, List.forall₂_iff_zip.mpr ⟨hlength, fun hp => ?_⟩, rfl⟩
    exact ⟨hnames _ hp, hvalues _ hp⟩

end ParseTree

end ScriptFeatures.Json
