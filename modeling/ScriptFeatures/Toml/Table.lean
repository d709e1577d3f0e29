import ScriptFeatures.Toml.Number

/-!
TOML tables as they are written: a table comes from its own header, from
headers below it, from dotted keys or from braces, and how it came about
decides what may still be added to it. No name is given twice.
-/

namespace ScriptFeatures.Toml

inductive Origin
  | header
  | subheader
  | dottedKey
  | braces
  deriving DecidableEq, Repr

inductive Item
  | string (s : String)
  | bool (b : Bool)
  | scalar (s : Scalar)
  | array (items : List Item)
  | table (origin : Origin) (members : List (String × Item))
  /-- An array of tables, each with a header of its own, the last one first. -/
  | tables (elements : List (List (String × Item)))
  deriving Repr

abbrev Table := List (String × Item)

/-- Whether a table is there only because something below it is. -/
def Origin.isImplicit : Origin → Bool
  | .subheader | .dottedKey => true
  | .header | .braces => false

namespace Table

def put (name : String) (item : Item) : Table → Table
  | [] => [(name, item)]
  | (k, old) :: t => if k = name then (k, item) :: t else (k, old) :: put name item t

def add? (t : Table) (name : String) (item : Item) : Option Table :=
  if (t.lookup name).isSome then none else some (put name item t)

/-- Changes the table that a path of names leads to. A table that is missing
is made, by dotted keys or by headers. Dotted keys do not lead into a table
that has been defined on its own; a path through an array of tables leads
into its last one. -/
def update? (dotted : Bool) (change : Origin → Table → Option Table) :
    List String → Origin → Table → Option Table
  | [], origin, t => change origin t
  | name :: path, _, t =>
    let made : Origin := if dotted then .dottedKey else .subheader
    match t.lookup name with
    | none => do return put name (.table made (← update? dotted change path made [])) t
    | some (.table origin sub) =>
      if origin = .braces ∨ dotted ∧ !origin.isImplicit then none
      else do return put name (.table origin (← update? dotted change path origin sub)) t
    | some (.tables (last :: others)) => do
      return put name (.tables ((← update? dotted change path .header last) :: others)) t
    | some _ => none

/-- Adds the value of a dotted key. The table it goes to comes from dotted
keys if and only if the key has more than one part. -/
def assign? (path : List String) (name : String) (item : Item) (t : Table) : Option Table :=
  let change (origin : Origin) (t : Table) : Option Table :=
    if (origin == .dottedKey) == path.isEmpty then none else t.add? name item
  update? true change path .header t

/-- As `assign?`, inside braces, where all tables in the way come from dotted
keys. -/
def assignInBraces? : List String → String → Item → Table → Option Table
  | [], name, item, t => t.add? name item
  | part :: path, name, item, t =>
    match t.lookup part with
    | none => do return put part (.table .dottedKey (← assignInBraces? path name item [])) t
    | some (.table .dottedKey sub) => do
      return put part (.table .dottedKey (← assignInBraces? path name item sub)) t
    | some _ => none

end Table

end ScriptFeatures.Toml
