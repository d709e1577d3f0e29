import Std.Data.HashMap
import ScriptFeatures.Feature.Extract
import ScriptFeatures.Tree.Growth

/-!
How often each feature occurs in one source. The distinct features are kept
in the order in which they first occur.
-/

namespace ScriptFeatures

structure Frequencies where
  distinct : Array Feature
  counts : Std.HashMap Feature Nat
  total : Nat

namespace Frequencies

def empty : Frequencies := ⟨#[], ∅, 0⟩

def count (m : Frequencies) (f : Feature) : Nat := m.counts.getD f 0

def add (m : Frequencies) (f : Feature) : Frequencies :=
  let n := m.count f
  { distinct := if n = 0 then m.distinct.push f else m.distinct
    counts := m.counts.insert f (n + 1)
    total := m.total + 1 }

def ofList (fs : List Feature) : Frequencies := fs.foldl add empty

def size (m : Frequencies) : Nat := m.distinct.size

def isEmpty (m : Frequencies) : Bool := m.distinct.isEmpty

/-- The distinct features with their counts, first occurrences in order. -/
def toList (m : Frequencies) : List (Feature × Nat) :=
  m.distinct.toList.map fun f => (f, m.count f)

end Frequencies

def Tree.frequencies (t : Tree) : Except Error Frequencies :=
  match t.features with
  | .ok fs => .ok (.ofList fs.toList)
  | .error e => .error e

def Descriptor.frequencies (d : Descriptor) : Except Error Frequencies :=
  match d.toTree with
  | .ok t => t.frequencies
  | .error e => .error e

end ScriptFeatures
