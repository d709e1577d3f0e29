import ScriptFeatures.Tree.Basic

/-!
Walks over a tree. The pre-order walk keeps the nodes still to be visited on
a stack. The first descendant of a kind is found by searching that walk, and
for all nodes at once by one pass over the array from its end, since the
children of a node come after it.
-/

namespace ScriptFeatures.Tree

def next? (t : Tree) : List NodeId → Option (NodeId × List NodeId)
  | [] => none
  | id :: stack => some (id, t.childIds id ++ stack)

/-- The visited nodes after at most `fuel` more visits. -/
def walk (t : Tree) : Nat → List NodeId → Array NodeId → Array NodeId
  | 0, _, visited => visited
  | fuel + 1, stack, visited =>
    match t.next? stack with
    | none => visited
    | some (id, stack) => t.walk fuel stack (visited.push id)

/-- A node and its descendants in pre-order: every node before its children,
and a child with all its descendants before the next child. -/
def preorder (t : Tree) (id : NodeId) : List NodeId := (t.walk t.size [id] #[]).toList

def hasKind (t : Tree) (kind : String) (id : NodeId) : Bool :=
  match t.get? id with
  | some node => node.kind == kind
  | none => false

/-- The first node of a kind, in pre-order, below a node. -/
def findDescendant? (t : Tree) (id : NodeId) (kind : String) : Option NodeId :=
  ((t.preorder id).drop 1).find? (t.hasKind kind)

/-- The first node of a kind below a node, given those below its children. -/
def firstBelow (t : Tree) (kind : String) (table : Array (Option NodeId)) (id : NodeId) :
    Option NodeId :=
  (t.childIds id).findSome? fun child =>
    if t.hasKind kind child then some child else (table[child]?).join

/-- Fills the table for the first `n` nodes, the last of them first. -/
def fillFirst (t : Tree) (kind : String) : Nat → Array (Option NodeId) → Array (Option NodeId)
  | 0, table => table
  | n + 1, table => t.fillFirst kind n (table.setIfInBounds n (t.firstBelow kind table n))

/-- `findDescendant?` for every node. -/
def firstDescendants (t : Tree) (kind : String) : Array (Option NodeId) :=
  t.fillFirst kind t.size (Array.replicate t.size none)

end ScriptFeatures.Tree
