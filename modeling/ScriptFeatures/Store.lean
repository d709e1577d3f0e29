import ScriptFeatures.Feature.Frequency

/-!
In how many sources of a corpus each feature occurs. A source counts once for
a feature, however often it has it.
-/

namespace ScriptFeatures

structure Store where
  counts : Std.HashMap Feature Nat

namespace Store

def empty : Store := ⟨∅⟩

def count? (s : Store) (f : Feature) : Option Nat := s.counts[f]?

def size (s : Store) : Nat := s.counts.size

def isEmpty (s : Store) : Bool := s.size == 0

def increment (s : Store) (f : Feature) : Store :=
  let n := (s.count? f).getD 0
  ⟨s.counts.insert f (n + 1)⟩

def record (s : Store) (m : Frequencies) : Store := m.distinct.foldl increment s

/-- A line of a snapshot, with the text its value is sorted by. -/
structure Entry where
  feature : Feature
  count : Nat
  shown : String

def Entry.of (f : Feature) (count : Nat) : Entry := ⟨f, count, f.value.text⟩

/-- Larger counts come first; equal ones are in the order of their contexts,
then of their values as they are shown, then of the types of the values, and
of the bytes of doubles. Different features never tie. -/
def Entry.compare (a b : Entry) : Ordering :=
  (Ord.compare b.count a.count).then <|
  (Ord.compare a.feature.context b.feature.context).then <|
  (Ord.compare a.shown b.shown).then <|
  (Ord.compare a.feature.value.rank b.feature.value.rank).then <|
  Ord.compare a.feature.value.bytesRank b.feature.value.bytesRank

/-- All features with their counts, the most frequent first. -/
def snapshot (s : Store) : List (Feature × Nat) :=
  let entries := s.counts.toList.map fun (f, n) => Entry.of f n
  (entries.mergeSort fun a b => (a.compare b).isLE).map fun e => (e.feature, e.count)

end Store

end ScriptFeatures
