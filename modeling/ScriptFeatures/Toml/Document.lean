import ScriptFeatures.Toml.Table

/-!
Reading a TOML document: values, and the lines that give names to them. The
table under the last header is kept apart until the next header or the end.
-/

namespace ScriptFeatures.Toml

open Scanner

/-! ### Values -/

def splitLast (path : List String) : List String × String :=
  (path.dropLast, path.getLastD "")

mutual

def value (depth : Nat) : Nat → Scanner Item
  | 0 => fail
  | fuel + 1 => do
    match ← peek? with
    | some '"' | some '\'' => .string <$> string
    | some '[' =>
      char '['
      if depth + 1 ≥ nestingLimit then fail
      .array <$> elements (depth + 1) [] fuel
    | some '\x7b' =>
      char '\x7b'
      if depth + 1 ≥ nestingLimit then fail
      .table .braces <$> members (depth + 1) [] fuel
    | some 't' => do word ['t', 'r', 'u', 'e']; return .bool true
    | some 'f' => do word ['f', 'a', 'l', 's', 'e']; return .bool false
    | some _ => .scalar <$> numberOrDate
    | none => fail

def elements (depth : Nat) (read : List Item) : Nat → Scanner (List Item)
  | 0 => fail
  | fuel + 1 => do
    gap fuel
    if ← word? [']'] then return read.reverse
    let item ← value depth fuel
    gap fuel
    if ← word? [','] then elements depth (item :: read) fuel
    else do
      char ']'
      return (item :: read).reverse

def members (depth : Nat) (read : Table) : Nat → Scanner Table
  | 0 => fail
  | fuel + 1 => do
    blanks
    if read.isEmpty && (← word? ['\x7d']) then return read
    let (path, name) := splitLast (← key)
    char '='
    blanks
    let item ← value depth fuel
    blanks
    match read.assignInBraces? path name item with
    | none => fail
    | some read =>
      if ← word? [','] then members depth read fuel
      else do
        char '\x7d'
        return read

end

/-! ### Lines -/

/-- A document under way: the tables that are complete, and the one under the
last header. -/
structure Draft where
  root : Table
  current : Table
  /-- The last header; it is empty before the first one. -/
  path : List String
  inArray : Bool

namespace Draft

def start : Draft := ⟨[], [], [], false⟩

def finish? (d : Draft) : Option Table :=
  if d.path.isEmpty then some d.current
  else
    let (path, name) := splitLast d.path
    let change (_ : Origin) (t : Table) : Option Table :=
      if d.inArray then
        match t.lookup name with
        | none => some (t.put name (.tables [d.current]))
        | some (.tables others) => some (t.put name (.tables (d.current :: others)))
        | some _ => none
      else some (t.put name (.table .header d.current))
    Table.update? false change path .header d.root

/-- A header of a table. The table may be there already because of what is
below it. -/
def openTable? (d : Draft) (header : List String) : Option Draft := do
  let root ← d.finish?
  let (path, name) := splitLast header
  let change (_ : Origin) (t : Table) : Option Table :=
    match t.lookup name with
    | none | some (.table .subheader _) => some t
    | some _ => none
  let root ← Table.update? false change path .header root
  let current := match memberAt? root path name with
    | some (.table _ members) => members
    | _ => []
  return ⟨root, current, header, false⟩
where
  memberAt? (t : Table) (path : List String) (name : String) : Option Item :=
    match path with
    | [] => t.lookup name
    | part :: path =>
      match t.lookup part with
      | some (.table _ sub) => memberAt? sub path name
      | some (.tables (last :: _)) => memberAt? last path name
      | _ => none

def openElement? (d : Draft) (header : List String) : Option Draft := do
  let root ← d.finish?
  let (path, name) := splitLast header
  let change (_ : Origin) (t : Table) : Option Table :=
    match t.lookup name with
    | none | some (.tables _) => some t
    | some _ => none
  let root ← Table.update? false change path .header root
  return ⟨root, [], header, true⟩

def assign? (d : Draft) (keyParts : List String) (item : Item) : Option Draft := do
  let (path, name) := splitLast keyParts
  return { d with current := ← Table.assign? path name item d.current }

end Draft

def lift (o : Option α) : Scanner α := fun cs => o.map (·, cs)

def header (d : Draft) : Scanner Draft := do
  if ← word? ['['] then
    let path ← key
    word [']', ']']
    lineEnd
    lift (d.openElement? path)
  else
    let path ← key
    char ']'
    lineEnd
    lift (d.openTable? path)

def assignment (d : Draft) : Scanner Draft := do
  let path ← key
  char '='
  blanks
  let item ← value 0 (2 * (← rest).length + 2)
  lineEnd
  lift (d.assign? path item)

def line (d : Draft) : Scanner Draft := do
  match ← peek? with
  | some '#' | some '\n' | some '\r' => do lineEnd; return d
  | some '[' => do char '['; header d
  | _ => assignment d

def lines (d : Draft) : Nat → Scanner Draft
  | 0 => fail
  | fuel + 1 => do
    blanks
    if (← peek?).isNone then return d
    lines (← line d) fuel

def document : Scanner Table := do
  let _ ← word? ['\uFEFF']
  lift (← lines .start ((← rest).length + 1)).finish?

/-- The table that a text describes; nothing if it is not TOML. -/
def read? (text : String) : Option Table := (document text.toList).map (·.1)

end ScriptFeatures.Toml
