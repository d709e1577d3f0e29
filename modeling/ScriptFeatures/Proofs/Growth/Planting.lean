import ScriptFeatures.Tree.Growth

/-!
Growing a tree by plain recursion. `Growth.plantMembers` expands the members
of a node in order and finishes a child before it goes on, with no stack of
nodes under way; what a member means is spelled out by the shape of its
value. The machine of frames does the same: one step leaves what its frame
still has to plant unchanged (`Growth.plantStep_advance`), so a run plants its
frames one after another (`Growth.grow_eq_foldl`).
-/

namespace ScriptFeatures

open Json

namespace Growth

/-! ### The members of a node -/

/-- The names whose values hold no nodes. -/
def leafNames : List String := ["type", "range", "regex"]

def boundsAttribute? (first last : Option Value) : Option Attribute :=
  match first.bind Value.natural?, last.bind Value.natural? with
  | some a, some b => some (.range a b)
  | _, _ => none

/-- The attribute that a member gives its node, if it gives one. -/
def memberAttribute? (name : String) (v : Value) : Option Attribute :=
  if name = "type" then none
  else if name = "range" then
    match v with
    | .array [first, last] => boundsAttribute? (some first) (some last)
    | .object ms => boundsAttribute? (Members.get? ms "0") (Members.get? ms "1")
    | _ => none
  else if name = "regex" then
    match v with
    | .object ms => some (.regex
        (((Members.get? ms "pattern").bind Value.string?).getD "")
        (((Members.get? ms "flags").bind Value.string?).getD ""))
    | v => some (.ofScalar v)
  else
    match v with
    | .object _ => none
    | .array [] => some .emptyList
    | .array (_ :: _) => none
    | v => some (.ofScalar v)

/-- Keeps the attribute that a member gives, if it gives one. -/
def keepAttribute (t : Tree) (node : NodeId) (name : String) (v : Value) : Tree :=
  match memberAttribute? name v with
  | some a => t.setAttribute node name a
  | none => t

mutual

/-- Expands the members of a node in order. -/
def plantMembers (t : Tree) (node : NodeId) : Members → Tree
  | [] => t
  | (name, v) :: ms =>
    let t := keepAttribute t node name v
    plantMembers (if name ∈ leafNames then t else plantValue t node name false v) node ms

/-- Expands the nodes that a value holds for a node: an object with a kind,
or such objects in a list. A list in a list holds none. -/
def plantValue (t : Tree) (node : NodeId) (name : String) (fromList : Bool) : Value → Tree
  | .object ms =>
    match nodeKind? ms with
    | some kind => plantMembers (t.addChild node kind name fromList) t.nextId ms
    | none => t
  | .array items => if fromList then t else plantItems t node name items
  | _ => t

def plantItems (t : Tree) (node : NodeId) (name : String) : List Value → Tree
  | [] => t
  | v :: items => plantItems (plantValue t node name true v) node name items

end

/-! ### What a member means to a frame -/

theorem boundsAttribute?_eq (first last : Option Value) :
    boundsAttribute? first last = (first.bind Value.natural?).bind fun a =>
      (last.bind Value.natural?).bind fun b => some (.range a b) := by
  rw [boundsAttribute?]
  cases first.bind Value.natural? with
  | none => rfl
  | some a => cases last.bind Value.natural? <;> rfl

theorem memberAttribute?_range (v : Value) :
    memberAttribute? "range" v = Attribute.ofRange? v := by
  simp only [memberAttribute?, String.reduceEq, if_false, if_true]
  split
  · exact boundsAttribute?_eq _ _
  · next ms =>
    rw [boundsAttribute?_eq, Attribute.ofRange?]
    cases Members.get? ms "0" with
    | none => rfl
    | some first =>
      cases Members.get? ms "1" with
      | none => cases hfirst : first.natural? <;> simp [hfirst]
      | some last => rfl
  · next harray hobject =>
    rw [Attribute.ofRange?]
    · exact harray
    · exact hobject

theorem memberAttribute?_regex (v : Value) :
    memberAttribute? "regex" v = some (.ofRegex v) := by
  cases v <;> rfl

/-- What a frame still has to plant: the rest of its list, then the rest of
its members. -/
def plantFrame (t : Tree) (f : Frame) : Tree :=
  let t := match f.list with
    | some (name, items) => plantItems t f.node name items
    | none => t
  plantMembers t f.node f.members

def plantStep (r : Tree × Step) : Tree :=
  match r.2 with
  | .descend node child => plantFrame (plantFrame r.1 child) node
  | .more node => plantFrame r.1 node
  | .done => r.1

theorem plantItems_nextNode? (t : Tree) (node : NodeId) (name : String) (items : List Value) :
    plantItems t node name items =
      match nextNode? items with
      | some (kind, ms, rest) =>
        plantItems (plantMembers (t.addChild node kind name true) t.nextId ms) node name rest
      | none => t := by
  induction items with
  | nil => rfl
  | cons v items ih =>
    cases v with
    | object ms =>
      rw [nextNode?, plantItems, plantValue]
      cases nodeKind? ms with
      | none => exact ih
      | some kind => rfl
    | null | bool _ | number _ | string _ | array _ => exact ih

theorem plantStep_member (t : Tree) (node : NodeId) (name : String) (v : Value)
    (rest : Members) :
    plantStep (member t node name v rest) = plantMembers t node ((name, v) :: rest) := by
  rw [plantMembers]
  by_cases hleaf : name ∈ leafNames
  · rw [if_pos hleaf]
    simp only [leafNames, List.mem_cons, List.not_mem_nil, or_false] at hleaf
    rcases hleaf with rfl | rfl | rfl
    · rfl
    · simp only [member, keepAttribute, memberAttribute?_range]
      cases Attribute.ofRange? v <;> rfl
    · simp only [member, keepAttribute, memberAttribute?_regex]
      rfl
  · rw [if_neg hleaf]
    simp only [leafNames, List.mem_cons, List.not_mem_nil, or_false, not_or] at hleaf
    obtain ⟨htype, hrange, hregex⟩ := hleaf
    unfold member
    split
    · exact absurd rfl htype
    · exact absurd rfl hrange
    · exact absurd rfl hregex
    · simp only [keepAttribute, memberAttribute?, htype, hrange, hregex, if_false]
      cases v with
      | object ms =>
        simp only [plantValue]
        cases nodeKind? ms <;> rfl
      | array items => cases items <;> rfl
      | null | bool _ | number _ | string _ => rfl

theorem plantStep_advanceMembers (t : Tree) (node : NodeId) (ms : Members) :
    plantStep (advanceMembers t node ms) = plantMembers t node ms := by
  cases ms with
  | nil => rfl
  | cons entry rest => exact plantStep_member t node entry.1 entry.2 rest

/-- A step plants a part of its frame and leaves the rest. -/
theorem plantStep_advance (t : Tree) (f : Frame) : plantStep (f.advance t) = plantFrame t f := by
  obtain ⟨node, list, members⟩ := f
  cases list with
  | none => exact plantStep_advanceMembers t node members
  | some entry =>
    obtain ⟨name, items⟩ := entry
    simp only [Frame.advance, plantFrame]
    rw [plantItems_nextNode?]
    cases nextNode? items with
    | none => exact plantStep_advanceMembers t node members
    | some found => rfl

/-- A run plants the frames under way, the innermost first. -/
theorem grow_eq_foldl (t : Tree) (stack : List Frame) :
    grow t stack = stack.foldl plantFrame t := by
  induction t, stack using grow.induct with
  | case1 t => rw [grow]; rfl
  | case2 t f rest r ih =>
    -- what the step leaves of `f` is the head of the stack that the run goes on with
    rw [grow, ih, List.foldl_cons, ← plantStep_advance, plantStep]
    cases hstep : r.2 <;> simp only [r, Step.resume, List.foldl_cons]

theorem grow_singleton (t : Tree) (f : Frame) : grow t [f] = plantFrame t f :=
  grow_eq_foldl t [f]

end Growth

namespace Tree

open Growth

/-- A tree built from the object of its root is the one that plain recursion
over the members of the object gives, sealed. -/
theorem build_eq_plantMembers (kind : String) (ms : Members) :
    (ofRoot kind).build ms = .ok (plantMembers (ofRoot kind) rootId ms).sealed := by
  have hfresh : (ofRoot kind).isFresh = true := rfl
  rw [build, expand, if_pos hfresh, grow_singleton]
  rfl

/-- What has no kind is passed over, in a list and outside. -/
example :
    (ofRoot "Program").build [("loc", .object []),
        ("range", .array [.number (.integer 0), .number (.integer 5)]),
        ("body", .array [.null, .object [("type", .string "ExpressionStatement"),
          ("expression", .object [("type", .string "Literal"), ("value", .bool true)]),
          ("decorators", .array [])]])] =
      .ok ⟨#[⟨0, "Program", none, false, none, #[1], [("range", .range 0 5)]⟩,
          ⟨1, "ExpressionStatement", some "body", true, some 0, #[2],
            [("decorators", .emptyList)]⟩,
          ⟨2, "Literal", some "expression", false, some 1, #[], [("value", .bool true)]⟩],
        true, by decide⟩ := by
  with_unfolding_all rfl

/-- Top-level statements alone give the tree of the object that has them as
its body. -/
theorem buildProgram_eq (kind : String) (body : List Value) :
    (ofRoot kind).buildProgram body =
      .ok (plantMembers (ofRoot kind) rootId
        [("type", .string kind), ("body", .array body)]).sealed := by
  have hfresh : (ofRoot kind).isFresh = true := rfl
  rw [buildProgram, expand, if_pos hfresh, grow_singleton]
  cases body <;> rfl

end Tree

end ScriptFeatures
