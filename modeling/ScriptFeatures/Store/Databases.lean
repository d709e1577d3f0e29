import ScriptFeatures.FileTree
import ScriptFeatures.Json.Printer
import ScriptFeatures.Json.Reader
import ScriptFeatures.Store.Database

/-!
The databases that lie in directories, one in each, and their written form. The
files that a database makes in its directory are its own affair; it is kept here
under the place of the directory.
-/

namespace ScriptFeatures

open Json

structure Databases where
  entries : List (Location × Database)

namespace Databases

def empty : Databases := ⟨[]⟩

/-- A directory in which no database has been opened yet has an empty one. -/
def get (ds : Databases) (place : Location) : Database := (ds.entries.lookup place).getD .empty

def set (ds : Databases) (place : Location) (db : Database) : Databases :=
  ⟨(place, db) :: ds.entries.filter (·.1 != place)⟩

end Databases

/-! ### Written form -/

def encodeBytes (bytes : Bytes) : Value := .array (bytes.map fun b => .number (.integer b.toNat))

def decodeBytes? (v : Value) : Option Bytes :=
  v.items.mapM fun b => b.natural?.map Nat.toUInt8

def DiskStore.encode (s : DiskStore) : Value :=
  .array (s.entries.toList.map fun (key, count) => .array [encodeBytes key, encodeBytes count])

def DiskStore.decodeEntry? : Value → Option (Bytes × Bytes)
  | .array [key, count] => return (← decodeBytes? key, ← decodeBytes? count)
  | _ => none

def DiskStore.decode? (v : Value) : Option DiskStore :=
  (v.items.mapM decodeEntry?).map fun entries => ⟨.ofList entries⟩

def Database.encode (db : Database) : Value :=
  .array (db.trees.toList.map fun (name, s) => .array [.string name, s.encode])

def Database.decodeTree? : Value → Option (String × DiskStore)
  | .array [.string name, s] => return (name, ← DiskStore.decode? s)
  | _ => none

def Database.decode? (v : Value) : Option Database :=
  (v.items.mapM decodeTree?).map fun trees => ⟨.ofList trees⟩

namespace Databases

def encode (ds : Databases) : Value :=
  .array (ds.entries.map fun (place, db) => .array [.array (place.map .string), db.encode])

def decodeEntry? : Value → Option (Location × Database)
  | .array [.array place, db] => return (← place.mapM Value.string?, ← Database.decode? db)
  | _ => none

def text (ds : Databases) : String := String.ofList ds.encode.compact

def ofText? (text : String) : Option Databases :=
  match Json.read none (.list .any) text with
  | .ok v => (v.items.mapM decodeEntry?).map (⟨·⟩)
  | .error _ => none

end Databases

end ScriptFeatures
