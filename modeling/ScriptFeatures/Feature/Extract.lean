import ScriptFeatures.Feature.Literal
import ScriptFeatures.Kind
import ScriptFeatures.Tree.Walk

/-!
The features of a tree, in pre-order. A literal contributes its value, every
other informative node the name of the first identifier below it. A kind
without a classification ends the extraction, so that a source is abandoned
and not counted in part.
-/

namespace ScriptFeatures

def classify (kind : String) : Except Error Classification :=
  match classify? kind with
  | some c => .ok c
  | none => .error (.unclassified kind)

namespace Tree

/-- An expression statement leaves its feature to its expression, if that is
informative. -/
def isSuppressed (t : Tree) (n : Node) : Except Error Bool :=
  if n.kind ≠ "ExpressionStatement" then .ok false
  else match t.firstChild? n.id with
  | some child => (·.isInformative) <$> classify child.kind
  | none => .ok false

def isThisAccess (t : Tree) (n : Node) : Bool :=
  n.kind == "MemberExpression" && (t.firstChild? n.id).any (·.kind == "ThisExpression")

def namedFeature? (t : Tree) (n : Node) (c : Category) (identifier : Option NodeId) :
    Option Feature := do
  let name ← (← t.get? (← identifier)).text? "name"
  return ⟨if t.isThisAccess n then Category.this.name else c.name, .string name⟩

/-- The feature of one node, given the first identifiers below all nodes. A
literal without a usable value has none. -/
def feature? (t : Tree) (identifiers : Array (Option NodeId)) (n : Node) :
    Except Error (Option Feature) :=
  match classify n.kind with
  | .error e => .error e
  | .ok .wrapper => .ok none
  | .ok (.informative .literal) =>
    match n.literal with
    | .ok (type, value) => .ok (some ⟨type.name, value⟩)
    | .error _ => .ok none
  | .ok (.informative c) =>
    match t.isSuppressed n with
    | .error e => .error e
    | .ok true => .ok none
    | .ok false => .ok (t.namedFeature? n c (identifiers[n.id]?).join)

/-- Adds the features of some nodes, in order, to those found before. -/
def collect (t : Tree) (identifiers : Array (Option NodeId)) (found : Array Feature) :
    List NodeId → Except Error (Array Feature)
  | [] => .ok found
  | id :: ids =>
    match t.get? id with
    | none => t.collect identifiers found ids
    | some n =>
      match t.feature? identifiers n with
      | .error e => .error e
      | .ok none => t.collect identifiers found ids
      | .ok (some f) => t.collect identifiers (found.push f) ids

def features (t : Tree) : Except Error (Array Feature) :=
  t.collect (t.firstDescendants "Identifier") #[] (t.preorder rootId)

end Tree

end ScriptFeatures
