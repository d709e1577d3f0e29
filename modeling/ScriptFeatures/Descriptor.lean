import ScriptFeatures.Json.Reader

/-!
The document a parser writes for one source file: the kind of the root, its
top-level statements, and the source's tokens and comments. Every member but
`leadingComments` is required, and members of other names are ignored.
-/

namespace ScriptFeatures

open Json

structure Descriptor where
  kind : String
  body : List Value
  sourceType : String
  range : Nat × Nat
  tokens : List Value
  comments : List Value
  leadingComments : List Value
  deriving Repr

namespace Descriptor

def position : Shape := .natural "u64"

def shape : Shape :=
  .record "RawAstDescriptor"
    [("type", .string), ("body", .list .any), ("sourceType", .string),
      ("range", .tuple [position, position]), ("tokens", .list .any), ("comments", .list .any)]
    [("leadingComments", .list .any)]

def bounds (v : Value) : Nat × Nat :=
  match v.items with
  | [a, b] => (a.natural?.getD 0, b.natural?.getD 0)
  | _ => (0, 0)

/-- A value that has the shape, as a descriptor. The shape gives every member
its type, so the defaults are those of no descriptor that was read. -/
def ofValue (v : Value) : Descriptor :=
  let member name := (v.members.get? name).getD .null
  { kind := (member "type").string?.getD ""
    body := (member "body").items
    sourceType := (member "sourceType").string?.getD ""
    range := bounds (member "range")
    tokens := (member "tokens").items
    comments := (member "comments").items
    leadingComments := (member "leadingComments").items }

/-- Reads a document. Its nesting is not limited. -/
def read (text : String) : Except Json.Error Descriptor :=
  match Json.read none shape text with
  | .ok v => .ok (ofValue v)
  | .error e => .error e

theorem json_read_of_read {text : String} {d : Descriptor} (h : read text = .ok d) :
    ∃ v, Json.read none shape text = .ok v ∧ ofValue v = d := by
  rw [read] at h
  split at h
  · next v hv => exact ⟨v, hv, Except.ok.inj h⟩
  · contradiction

end Descriptor

end ScriptFeatures
