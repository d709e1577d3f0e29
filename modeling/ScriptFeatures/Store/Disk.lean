import Std.Data.TreeMap
import ScriptFeatures.Store

/-!
The store as it lies on disk: bytes under bytes, in the order of the keys. A
feature is written as the key of its entry, and the entry is its count in eight
bytes, the highest first. How a feature is written is left open; the binary
coding writes numbers with a fixed width, the lowest byte first, and a text
after its length.
-/

namespace ScriptFeatures

open Decimal

abbrev Bytes := List UInt8

/-! ### Numbers in bytes -/

def littleEndian : Nat → Nat → Bytes
  | 0, _ => []
  | width + 1, n => (n % 256).toUInt8 :: littleEndian width (n / 256)

def ofLittleEndian : Bytes → Nat
  | [] => 0
  | b :: bytes => b.toNat + 256 * ofLittleEndian bytes

/-- A count in eight bytes, the highest first. -/
def countBytes (n : Nat) : Bytes := (littleEndian 8 n).reverse

/-- The count in an entry; an entry of another length counts nothing. -/
def countOf (bytes : Bytes) : Nat :=
  if bytes.length = 8 then ofLittleEndian bytes.reverse else 0

/-! ### Keys -/

/-- How features are written as keys, and read back. -/
structure KeyCoding where
  encode : Feature → Bytes
  decode? : Bytes → Option Feature

def textBytes (s : String) : Bytes := littleEndian 8 s.utf8ByteSize ++ s.toUTF8.data.toList

/-- A value after the number of its type. A negative integer is written as its
two's complement. -/
def FeatureValue.bytes : FeatureValue → Bytes
  | .string s => littleEndian 4 0 ++ textBytes s
  | .integer n => littleEndian 4 1 ++ littleEndian 8 (n % 0x10000000000000000).toNat
  | .double x => littleEndian 4 2 ++ littleEndian 8 x.bits.toNat
  | .bool b => littleEndian 4 3 ++ littleEndian 1 b.toNat
  | .null => littleEndian 4 4

def Feature.bytes (f : Feature) : Bytes := textBytes f.context ++ f.value.bytes

namespace KeyCoding

/-- A part read off the front of some bytes, if it can be read. -/
abbrev Part := StateT Bytes Option

def bytes (n : Nat) : Part Bytes := fun rest =>
  if n ≤ rest.length then some (rest.take n, rest.drop n) else none

def number (width : Nat) : Part Nat := ofLittleEndian <$> bytes width

def text : Part String := do
  let content ← bytes (← number 8)
  StateT.lift (String.fromUTF8? ⟨content.toArray⟩)

def signed (n : Nat) : Int := if n < 0x8000000000000000 then n else n - 0x10000000000000000

def truth : Nat → Option Bool
  | 0 => some false
  | 1 => some true
  | _ => none

def value : Part FeatureValue := do
  match ← number 4 with
  | 0 => .string <$> text
  | 1 => (fun n => .integer (signed n)) <$> number 8
  | 2 => (fun n => .double ⟨n.toUInt64⟩) <$> number 8
  | 3 => do return .bool (← StateT.lift (truth (← number 1)))
  | 4 => return .null
  | _ => StateT.lift none

def feature : Part Feature := do
  let context ← text
  return ⟨context, ← value⟩

/-- Features with numbers of fixed width. Bytes after a feature do not count. -/
def binary : KeyCoding := ⟨Feature.bytes, fun key => (feature.run key).map (·.1)⟩

end KeyCoding

/-! ### The store -/

structure DiskStore where
  entries : Std.TreeMap Bytes Bytes

namespace DiskStore

def empty : DiskStore := ⟨∅⟩

def count? (k : KeyCoding) (s : DiskStore) (f : Feature) : Option Nat :=
  (s.entries[k.encode f]?).map countOf

def size (s : DiskStore) : Nat := s.entries.size

def isEmpty (s : DiskStore) : Bool := s.size == 0

def increment (k : KeyCoding) (s : DiskStore) (f : Feature) : DiskStore :=
  let n := (s.count? k f).getD 0
  ⟨s.entries.insert (k.encode f) (countBytes (n + 1))⟩

def record (k : KeyCoding) (s : DiskStore) (m : Frequencies) : DiskStore :=
  m.distinct.foldl (increment k) s

/-- The order of a snapshot. Entries that tie stay in the order of their
keys. -/
def precedes (a b : Store.Entry) : Bool :=
  ((Ord.compare b.count a.count).then <|
    (Ord.compare a.feature.context b.feature.context).then <|
    Ord.compare a.shown b.shown).isLE

def snapshotLine? (k : KeyCoding) (entry : Bytes × Bytes) : Option Store.Entry :=
  (k.decode? entry.1).map fun f => .of f (countOf entry.2)

/-- All features with their counts, the most frequent first. It fails if a key
cannot be read. -/
def snapshot (k : KeyCoding) (s : DiskStore) : Option (List (Feature × Nat)) :=
  (s.entries.toList.mapM (snapshotLine? k)).map fun entries =>
    (entries.mergeSort precedes).map fun e => (e.feature, e.count)

end DiskStore

end ScriptFeatures
