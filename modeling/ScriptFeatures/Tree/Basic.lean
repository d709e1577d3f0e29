import ScriptFeatures.Decimal.Binary64

/-!
The tree of one source file. Its nodes lie in one array, and the identifier
of a node is its index there: identifiers grow in the order in which nodes
are added, so a child comes after its parent. A tree starts as a lone root
and is sealed when it is complete.
-/

namespace ScriptFeatures

open Decimal

abbrev NodeId := Nat

/-- A scalar or position that is kept on a node and is no child of it. -/
inductive Attribute
  | string (s : String)
  | integer (n : Int)
  | double (x : Binary64)
  | bool (b : Bool)
  | null
  | range (first last : Nat)
  | regex (pattern flags : String)
  /-- A list of nodes that has no elements. -/
  | emptyList
  deriving DecidableEq, Repr

def Attribute.string? : Attribute → Option String
  | .string s => some s
  | _ => none

abbrev Attributes := List (String × Attribute)

namespace Attributes

def get? (as : Attributes) (name : String) : Option Attribute := as.lookup name

/-- The last attribute given to a name is the one kept. -/
def insert (name : String) (a : Attribute) : Attributes → Attributes
  | [] => [(name, a)]
  | (k, b) :: as =>
    if name = k then (k, a) :: as
    else if name < k then (name, a) :: (k, b) :: as
    else (k, b) :: insert name a as

theorem get?_insert (name k : String) (a : Attribute) (as : Attributes) :
    (insert name a as).get? k = if k = name then some a else as.get? k := by
  have key (j : String) : (k == j) = decide (k = j) := rfl
  induction as with
  | nil => by_cases h : k = name <;> simp [insert, get?, List.lookup_cons, key, h]
  | cons entry as ih =>
    obtain ⟨j, b⟩ := entry
    simp only [get?] at ih
    simp only [insert, get?]
    split
    · next hj => subst hj; by_cases h : k = name <;> simp [List.lookup_cons, key, h]
    · split
      · by_cases h : k = name <;> simp [List.lookup_cons, key, h]
      · next hj _ =>
        by_cases hk : k = j
        · subst hk; simp [Ne.symm hj]
        · simp [List.lookup_cons, key, hk, ih]

end Attributes

structure Node where
  id : NodeId
  kind : String
  /-- The member of the parent that holds this node; the root has none. -/
  tag : Option String
  /-- Whether that member is a list. -/
  fromList : Bool
  parent : Option NodeId
  children : Array NodeId
  attributes : Attributes
  deriving DecidableEq, Repr

structure Tree where
  nodes : Array Node
  built : Bool
  nonempty : 0 < nodes.size
  deriving DecidableEq

namespace Tree

def ofRoot (kind : String) : Tree :=
  { nodes := #[⟨0, kind, none, false, none, #[], []⟩]
    built := false
    nonempty := by simp }

def rootId : NodeId := 0

def root (t : Tree) : Node :=
  have := t.nonempty
  t.nodes[0]

def size (t : Tree) : Nat := t.nodes.size

def get? (t : Tree) (id : NodeId) : Option Node := t.nodes[id]?

/-- The children of a node in order; an identifier of no node has none. -/
def childIds (t : Tree) (id : NodeId) : List NodeId :=
  match t.get? id with
  | some node => node.children.toList
  | none => []

def children (t : Tree) (id : NodeId) : List Node := (t.childIds id).filterMap t.get?

def firstChild? (t : Tree) (id : NodeId) : Option Node := (t.childIds id).head?.bind t.get?

def parent? (t : Tree) (id : NodeId) : Option Node := ((t.get? id).bind (·.parent)).bind t.get?

def nextId (t : Tree) : NodeId := t.nodes.size

def addChild (t : Tree) (parent : NodeId) (kind tag : String) (fromList : Bool) : Tree :=
  let id := t.nextId
  { t with
    nodes := (t.nodes.modify parent fun n => { n with children := n.children.push id }).push
      ⟨id, kind, some tag, fromList, some parent, #[], []⟩
    nonempty := by simp }

def setAttribute (t : Tree) (id : NodeId) (name : String) (a : Attribute) : Tree :=
  { t with
    nodes := t.nodes.modify id fun n => { n with attributes := n.attributes.insert name a }
    nonempty := by simpa using t.nonempty }

def sealed (t : Tree) : Tree := { t with built := true }

def isFresh (t : Tree) : Bool := !t.built && t.size == 1

end Tree

end ScriptFeatures
