import ScriptFeatures.Store.Disk

/-!
The database in which stores lie on disk, each in a tree of its own. A store is
opened under a label, which names its tree, so that a later store of the same
label counts on from it. What a store records goes to its open database, which
is saved by a flush and when the store is closed.
-/

namespace ScriptFeatures

structure Database where
  trees : Std.TreeMap String DiskStore

namespace Database

def empty : Database := ⟨∅⟩

/-- A tree that has not been made yet holds nothing. -/
def tree (db : Database) (name : String) : DiskStore := (db.trees[name]?).getD .empty

def setTree (db : Database) (name : String) (s : DiskStore) : Database :=
  ⟨db.trees.insert name s⟩

def openTree (db : Database) (name : String) : Database :=
  if db.trees.contains name then db else db.setTree name .empty

end Database

def treeName (label : String) : String := "_all_features_" ++ label

structure OpenStore where
  label : String
  database : Database
  /-- What the disk has of the database. -/
  saved : Database

namespace OpenStore

def ofLabel (saved : Database) (label : String) : OpenStore :=
  ⟨label, saved.openTree (treeName label), saved⟩

def counts (s : OpenStore) : DiskStore := s.database.tree (treeName s.label)

def record (k : KeyCoding) (s : OpenStore) (m : Frequencies) : OpenStore :=
  { s with database := s.database.setTree (treeName s.label) (s.counts.record k m) }

def flush (s : OpenStore) : OpenStore := { s with saved := s.database }

/-- What is left on disk of a store that is closed. -/
def close (s : OpenStore) : Database := s.flush.saved

def count? (k : KeyCoding) (s : OpenStore) (f : Feature) : Option Nat := s.counts.count? k f

def size (s : OpenStore) : Nat := s.counts.size

def isEmpty (s : OpenStore) : Bool := s.counts.isEmpty

def snapshot (k : KeyCoding) (s : OpenStore) : Option (List (Feature × Nat)) :=
  s.counts.snapshot k

inductive Action
  | record (m : Frequencies)
  | flush

def act (k : KeyCoding) (s : OpenStore) : Action → OpenStore
  | .record m => s.record k m
  | .flush => s.flush

def run (k : KeyCoding) (s : OpenStore) (actions : List Action) : OpenStore :=
  actions.foldl (act k) s

end OpenStore

structure Session where
  label : String
  actions : List OpenStore.Action

def Session.run (k : KeyCoding) (db : Database) (s : Session) : Database :=
  ((OpenStore.ofLabel db s.label).run k s.actions).close

end ScriptFeatures
