import ScriptFeatures.Descriptor
import ScriptFeatures.Error
import ScriptFeatures.Tree.Basic

/-!
Growing a tree from JSON. An object with a textual `type` is a node, and its
members are expanded in order: members that hold nodes become children, other
members become attributes. A child is complete before its parent goes on, so
identifiers follow the pre-order of the nodes.

The nodes under way lie on an explicit stack, each with what is left of its
members. One step advances the node on top, and each step makes what is left
smaller, whatever the JSON holds.
-/

namespace ScriptFeatures

open Json

def nodeKind? (ms : Members) : Option String := (ms.get? "type").bind Value.string?

def Attribute.ofScalar : Value → Attribute
  | .string s => .string s
  | .bool b => .bool b
  | .number n =>
    match n.signed? with
    | some i => .integer i
    | none => .double n.toBinary64
  | .null | .array _ | .object _ => .null

/-- Positions are a list of two or an object with the names `0` and `1`. -/
def Attribute.ofRange? : Value → Option Attribute
  | .array [first, last] => return .range (← first.natural?) (← last.natural?)
  | .object ms => do
    let first ← Members.get? ms "0"
    let last ← Members.get? ms "1"
    return .range (← first.natural?) (← last.natural?)
  | _ => none

/-- A regular expression; a pattern or flags that are missing are empty. -/
def Attribute.ofRegex : Value → Attribute
  | .object ms =>
    let text name := ((Members.get? ms name).bind Value.string?).getD ""
    .regex (text "pattern") (text "flags")
  | v => .ofScalar v

namespace Growth

/-- A node under way: the rest of the list it is walking and the rest of its
members. -/
structure Frame where
  node : NodeId
  list : Option (String × List Value)
  members : Members

inductive Step
  /-- The node waits while a new child of it is expanded. -/
  | descend (node child : Frame)
  | more (node : Frame)
  | done

/-- The first node among some values, with the values after it. -/
def nextNode? : List Value → Option (String × Members × List Value)
  | [] => none
  | .object ms :: rest =>
    match nodeKind? ms with
    | some kind => some (kind, ms, rest)
    | none => nextNode? rest
  | _ :: rest => nextNode? rest

def member (t : Tree) (node : NodeId) (name : String) (v : Value) (rest : Members) : Tree × Step :=
  let waiting : Frame := ⟨node, none, rest⟩
  match name with
  | "type" => (t, .more waiting)
  | "range" =>
    match Attribute.ofRange? v with
    | some a => (t.setAttribute node name a, .more waiting)
    | none => (t, .more waiting)
  | "regex" => (t.setAttribute node name (.ofRegex v), .more waiting)
  | _ =>
    match v with
    | .object ms =>
      match nodeKind? ms with
      | some kind =>
        let id := t.nextId
        (t.addChild node kind name false, .descend waiting ⟨id, none, ms⟩)
      | none => (t, .more waiting)
    | .array [] => (t.setAttribute node name .emptyList, .more waiting)
    | .array items => (t, .more ⟨node, some (name, items), rest⟩)
    | scalar => (t.setAttribute node name (.ofScalar scalar), .more waiting)

def advanceMembers (t : Tree) (node : NodeId) : Members → Tree × Step
  | [] => (t, .done)
  | (name, v) :: rest => member t node name v rest

/-- Expands the next node of the list a node is walking, or else its next
member. -/
def Frame.advance (t : Tree) (f : Frame) : Tree × Step :=
  match f.list with
  | none => advanceMembers t f.node f.members
  | some (name, items) =>
    match nextNode? items with
    | some (kind, ms, rest) =>
      let id := t.nextId
      (t.addChild f.node kind name true,
        .descend ⟨f.node, some (name, rest), f.members⟩ ⟨id, none, ms⟩)
    | none => advanceMembers t f.node f.members

/-- The nodes under way after a step of the innermost one, given the others. -/
def Step.resume (rest : List Frame) : Step → List Frame
  | .descend node child => child :: node :: rest
  | .more node => node :: rest
  | .done => rest

/-! ### What is left gets smaller -/

noncomputable def Frame.weight (f : Frame) : Nat :=
  (match f.list with
    | none => 0
    | some (_, items) => sizeOf items + 1) + sizeOf f.members + 1

noncomputable def stackWeight : List Frame → Nat
  | [] => 0
  | f :: rest => f.weight + stackWeight rest

noncomputable def Step.weight : Step → Nat
  | .descend node child => node.weight + child.weight
  | .more node => node.weight
  | .done => 0

theorem nextNode?_sizeOf {items rest : List Value} {kind : String} {ms : Members}
    (h : nextNode? items = some (kind, ms, rest)) :
    sizeOf ms + sizeOf rest + 1 < sizeOf items := by
  induction items with
  | nil => simp [nextNode?] at h
  | cons v items ih =>
    cases v with
    | object fields =>
      simp only [nextNode?] at h
      split at h
      · simp only [Option.some.injEq, Prod.mk.injEq] at h
        obtain ⟨-, rfl, rfl⟩ := h
        simp only [List.cons.sizeOf_spec, Value.object.sizeOf_spec]
        omega
      · have := ih h
        simp only [List.cons.sizeOf_spec]
        omega
    | null | bool _ | number _ | string _ | array _ =>
      have := ih (by simpa [nextNode?] using h)
      simp only [List.cons.sizeOf_spec]
      omega

theorem member_weight (t : Tree) (node : NodeId) (name : String) (v : Value) (rest : Members) :
    (member t node name v rest).2.weight < sizeOf ((name, v) :: rest) + 1 := by
  simp only [List.cons.sizeOf_spec, Prod.mk.sizeOf_spec]
  unfold member
  split
  · simp only [Step.weight, Frame.weight]; omega
  · split <;> (simp only [Step.weight, Frame.weight]; omega)
  · simp only [Step.weight, Frame.weight]; omega
  · split
    · split
      · simp only [Step.weight, Frame.weight, Value.object.sizeOf_spec]; omega
      · simp only [Step.weight, Frame.weight]; omega
    · simp only [Step.weight, Frame.weight]; omega
    · simp only [Step.weight, Frame.weight, Value.array.sizeOf_spec]; omega
    · simp only [Step.weight, Frame.weight]; omega

theorem advanceMembers_weight (t : Tree) (node : NodeId) (ms : Members) :
    (advanceMembers t node ms).2.weight < sizeOf ms + 1 := by
  cases ms with
  | nil => simp only [advanceMembers, Step.weight]; omega
  | cons entry rest => exact member_weight t node entry.1 entry.2 rest

theorem Frame.advance_weight (t : Tree) (f : Frame) : (f.advance t).2.weight < f.weight := by
  obtain ⟨node, list, members⟩ := f
  have hmembers := advanceMembers_weight t node members
  cases list with
  | none => simpa only [Frame.advance, Frame.weight, Nat.zero_add] using hmembers
  | some entry =>
    obtain ⟨name, items⟩ := entry
    simp only [Frame.advance]
    split
    · next kind ms rest h =>
      have := nextNode?_sizeOf h
      simp only [Step.weight, Frame.weight]
      omega
    · simp only [Frame.weight]
      omega

theorem Step.resume_weight (s : Step) (rest : List Frame) :
    stackWeight (s.resume rest) = s.weight + stackWeight rest := by
  cases s <;> simp only [Step.resume, Step.weight, stackWeight] <;> omega

/-- Advances the innermost node until no node is under way. -/
def grow (t : Tree) (stack : List Frame) : Tree :=
  match stack with
  | [] => t
  | f :: rest =>
    let r := f.advance t
    grow r.1 (r.2.resume rest)
  termination_by stackWeight stack
  decreasing_by
    have := f.advance_weight t
    rw [Step.resume_weight]
    simp only [stackWeight]
    omega

end Growth

namespace Tree

/-- Expands what a frame holds into a fresh tree and seals it. A tree that
has been grown before is refused, so every source has its own root and its
own identifiers. -/
def expand (t : Tree) (start : Tree × Growth.Frame) : Except Error Tree :=
  if t.isFresh then .ok (Growth.grow start.1 [start.2]).sealed
  else .error (.rootReused t.root.kind)

/-- Grows a tree from the object that its root stands for. -/
def build (t : Tree) (ms : Members) : Except Error Tree :=
  t.expand (t, ⟨rootId, none, ms⟩)

/-- Grows a tree from top-level statements alone, as if they were the `body`
of its root. -/
def buildProgram (t : Tree) (body : List Value) : Except Error Tree :=
  let start := if body.isEmpty then t.setAttribute rootId "body" .emptyList else t
  t.expand (start, ⟨rootId, some ("body", body), []⟩)

end Tree

def Descriptor.toTree (d : Descriptor) : Except Error Tree :=
  (Tree.ofRoot d.kind).buildProgram d.body

end ScriptFeatures
