import ScriptFeatures.Feature.Extract
import ScriptFeatures.Proofs.Growth.Planting

/-!
Documents read without a tree. A phrase is an object of a document that is a
node; its parts are the phrases directly below it, found in the order of its
members. Everything that an extraction depends on is said of phrases here by
recursion over their parts: the order of the visits, the identifier that gives
a phrase its name, the feature of a phrase and the kind that ends the
extraction.
-/

namespace ScriptFeatures

open Json Growth

/-- An object of a document that is a node. -/
structure Phrase where
  kind : String
  members : Members

namespace Phrase

/-- An object with a textual type is a phrase; no other value is one. -/
def ofValue? : Value → Option Phrase
  | .object ms => (nodeKind? ms).map (⟨·, ms⟩)
  | _ => none

/-- The phrases that a value holds: the value itself, or the elements of a
list. -/
def heldBy : Value → List Phrase
  | .array items => items.filterMap ofValue?
  | v => (ofValue? v).toList

def ofMember (name : String) (v : Value) : List Phrase :=
  if name ∈ leafNames then [] else heldBy v

def parts (p : Phrase) : List Phrase := p.members.flatMap fun m => ofMember m.1 m.2

/-- The phrase of a program, given the kind of its root and its statements. -/
def program (kind : String) (body : List Value) : Phrase :=
  ⟨kind, [("type", .string kind), ("body", .array body)]⟩

theorem sizeOf_of_ofValue? {v : Value} {p : Phrase} (h : ofValue? v = some p) :
    sizeOf p.members < sizeOf v := by
  cases v with
  | object ms =>
    rw [ofValue?, Option.map_eq_some_iff] at h
    obtain ⟨kind, -, rfl⟩ := h
    simp only [Value.object.sizeOf_spec]
    omega
  | null | bool _ | number _ | string _ | array _ => simp [ofValue?] at h

theorem sizeOf_of_mem_heldBy {v : Value} {p : Phrase} (h : p ∈ heldBy v) :
    sizeOf p.members < sizeOf v := by
  unfold heldBy at h
  split at h
  · next items =>
    obtain ⟨item, hitem, hp⟩ := List.mem_filterMap.mp h
    have hlt := List.sizeOf_lt_of_mem hitem
    have hsize := sizeOf_of_ofValue? hp
    simp only [Value.array.sizeOf_spec]
    omega
  · exact sizeOf_of_ofValue? (Option.mem_toList.mp h)

theorem sizeOf_of_mem_parts {p q : Phrase} (h : q ∈ p.parts) :
    sizeOf q.members < sizeOf p.members := by
  obtain ⟨⟨name, v⟩, hm, hq⟩ := List.mem_flatMap.mp h
  have hlt := List.sizeOf_lt_of_mem hm
  have hheld : q ∈ heldBy v := (List.mem_ite_nil_left.mp hq).2
  have hsize := sizeOf_of_mem_heldBy hheld
  simp only [Prod.mk.sizeOf_spec] at hlt
  omega

@[elab_as_elim]
theorem induction_on_parts {motive : Phrase → Prop}
    (step : ∀ p : Phrase, (∀ q ∈ p.parts, motive q) → motive p) (p : Phrase) : motive p := by
  induction hd : sizeOf p.members using Nat.strongRecOn generalizing p with
  | ind d ih => exact step p fun q hq => ih _ (hd ▸ sizeOf_of_mem_parts hq) q rfl

/-- A phrase followed by all that its parts hold, in order. -/
def preorder (p : Phrase) : List Phrase := p :: p.parts.attach.flatMap fun q => q.1.preorder
  termination_by sizeOf p.members
  decreasing_by exact sizeOf_of_mem_parts q.2

theorem preorder_eq (p : Phrase) : p.preorder = p :: p.parts.flatMap preorder := by
  rw [preorder]
  simp

/-! ### The feature of a phrase -/

def firstIdentifier? (p : Phrase) : Option Phrase :=
  (p.parts.flatMap preorder).find? (·.kind == "Identifier")

/-- An expression statement leaves its feature to its expression, if that is
informative. -/
def defersToPart (p : Phrase) : Bool :=
  p.kind == "ExpressionStatement" &&
    p.parts.head?.any fun q => (classify? q.kind).any (·.isInformative)

def isThisAccess (p : Phrase) : Bool :=
  p.kind == "MemberExpression" && p.parts.head?.any (·.kind == "ThisExpression")

/-- The feature of a phrase, given how a literal and the name of an identifier
are read. -/
def feature? (literal : Phrase → Option Feature) (name : Phrase → Option String) (p : Phrase) :
    Option Feature :=
  match classify? p.kind with
  | none | some .wrapper => none
  | some (.informative .literal) => literal p
  | some (.informative c) =>
    if p.defersToPart then none
    else (p.firstIdentifier?.bind name).map fun s =>
      ⟨if p.isThisAccess then "This" else c.name, .string s⟩

/-! ### What a tree keeps of a phrase -/

def keepMember (as : Attributes) (m : String × Value) : Attributes :=
  match memberAttribute? m.1 m.2 with
  | some a => as.insert m.1 a
  | none => as

def attributes (p : Phrase) : Attributes := p.members.foldl keepMember []

def keptLiteral? (p : Phrase) : Option Feature :=
  match (p.attributes.get? "value").bind Attribute.literal? with
  | some (type, value) => some ⟨type.name, value⟩
  | none => ((p.attributes.get? "regex").bind Attribute.pattern?).map fun pattern =>
    ⟨LiteralType.regex.name, .string pattern⟩

def keptName? (p : Phrase) : Option String := (p.attributes.get? "name").bind Attribute.string?

/-- The feature that a tree gives the node of a phrase. -/
abbrev keptFeature? (p : Phrase) : Option Feature := p.feature? keptLiteral? keptName?

def isUnclassified (p : Phrase) : Bool := (classify? p.kind).isNone

/-- The features of some phrases in order, or the error of the first of them
that has no classification. -/
def extract (ps : List Phrase) : Except Error (List Feature) :=
  match ps.find? isUnclassified with
  | some p => .error (.unclassified p.kind)
  | none => .ok (ps.filterMap keptFeature?)

@[simp] theorem extract_nil : extract [] = .ok [] := rfl

theorem extract_append (ps qs : List Phrase) :
    extract (ps ++ qs) = do return (← extract ps) ++ (← extract qs) := by
  simp only [extract, List.find?_append, List.filterMap_append]
  cases ps.find? isUnclassified with
  | some p => rfl
  | none => cases qs.find? isUnclassified <;> rfl

theorem extract_cons {p : Phrase} (h : p.isUnclassified = false) (ps : List Phrase) :
    extract (p :: ps) = do return p.keptFeature?.toList ++ (← extract ps) := by
  rw [← List.singleton_append, extract_append]
  have hp : extract [p] = .ok p.keptFeature?.toList := by
    simp only [extract, List.find?_singleton, h, List.filterMap_cons, List.filterMap_nil]
    cases p.keptFeature? <;> rfl
  rw [hp]
  rfl

/-- A phrase without classification ends the extraction of all that follow. -/
theorem extract_of_find? {ps : List Phrase} {p : Phrase} (h : ps.find? isUnclassified = some p)
    (qs : List Phrase) : extract (ps ++ qs) = .error (.unclassified p.kind) := by
  rw [extract, List.find?_append, h]
  rfl

end Phrase

end ScriptFeatures
