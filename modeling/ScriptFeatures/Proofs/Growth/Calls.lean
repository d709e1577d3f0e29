import ScriptFeatures.Proofs.Phrase.Laid
import ScriptFeatures.Proofs.Tree.Iteration

/-!
The calls that grow a tree. A lone root takes one of them, whatever it is given,
and the tree it leaves refuses every later one, also where no child was added
(`Tree.answers`). Top-level statements on their own start the machine on a list
with no members behind it, and an object starts it on members that reach the
list; the two give one tree.
-/

namespace ScriptFeatures

open Json Growth

namespace Growth

/-! ### Where a run starts -/

/-- A list under way is a member that has not been expanded yet; an empty one
only leaves its attribute. -/
theorem plantFrame_list (t : Tree) (node : NodeId) {name : String} (hname : name ∉ leafNames)
    (items : List Value) (ms : Members) :
    plantFrame (if items.isEmpty then t.setAttribute node name .emptyList else t)
        ⟨node, some (name, items), ms⟩ =
      plantFrame t ⟨node, none, (name, .array items) :: ms⟩ := by
  have hplain : name ≠ "type" ∧ name ≠ "range" ∧ name ≠ "regex" := by
    simpa [leafNames] using hname
  obtain ⟨htype, hrange, hregex⟩ := hplain
  simp only [plantFrame, plantMembers, if_neg hname]
  cases items with
  | nil =>
    have hkept : keepAttribute t node name (.array []) = t.setAttribute node name .emptyList := by
      simp only [keepAttribute, memberAttribute?, htype, hrange, hregex, if_false]
    rw [hkept]
    rfl
  | cons v items =>
    have hkept : keepAttribute t node name (.array (v :: items)) = t := by
      simp only [keepAttribute, memberAttribute?, htype, hrange, hregex, if_false]
    rw [hkept]
    rfl

theorem plantFrame_type (t : Tree) (node : NodeId) (v : Value) (ms : Members) :
    plantFrame t ⟨node, none, ("type", v) :: ms⟩ = plantFrame t ⟨node, none, ms⟩ := by
  have hleaf : "type" ∈ leafNames := List.mem_cons_self
  have hkept : keepAttribute t node "type" v = t := rfl
  simp only [plantFrame, plantMembers, if_pos hleaf, hkept]

end Growth

namespace Tree

theorem expand_ofRoot (kind : String) (t : Tree) (f : Frame) :
    (ofRoot kind).expand (t, f) = .ok (plantFrame t f).sealed := by
  have hfresh : (ofRoot kind).isFresh = true := rfl
  rw [expand, if_pos hfresh, grow_singleton]

theorem expand_of_built {t : Tree} (h : t.built = true) (start : Tree × Frame) :
    t.expand start = .error (.rootReused t.root.kind) := by
  have hstale : t.isFresh = false := by
    simp [isFresh, h]
  rw [expand, hstale]
  rfl

/-- Top-level statements alone give the sealed tree that an object with these
statements as its body gives, whatever the object calls itself. -/
theorem buildProgram_eq_build (kind : String) (body : List Value) (type : Value) :
    ∃ t, (ofRoot kind).buildProgram body = .ok t ∧
      (ofRoot kind).build [("type", type), ("body", .array body)] = .ok t ∧ t.built = true := by
  have hbody : "body" ∉ leafNames := by decide
  refine ⟨(plantFrame (ofRoot kind) ⟨rootId, none, [("body", .array body)]⟩).sealed, ?_, ?_, rfl⟩
  · rw [buildProgram, expand_ofRoot, plantFrame_list _ _ hbody]
  · rw [build, expand_ofRoot, plantFrame_type]

example :
    (ofRoot "Module").buildProgram [.null, .object [("type", .string "ExpressionStatement"),
        ("directive", .string "use strict"), ("decorators", .array [])]] =
      .ok ⟨#[⟨0, "Module", none, false, none, #[1], []⟩,
          ⟨1, "ExpressionStatement", some "body", true, some 0, #[],
            [("decorators", .emptyList), ("directive", .string "use strict")]⟩],
        true, by decide⟩ := by
  with_unfolding_all rfl

/-! ### Calls in a row -/

inductive Call
  | build (ms : Members)
  | buildProgram (body : List Value)

def Call.run (t : Tree) : Call → Except Error Tree
  | .build ms => t.build ms
  | .buildProgram body => t.buildProgram body

/-- The answers to some calls, each made on the tree that the last success
left. -/
def answers (t : Tree) : List Call → List (Except Error Tree)
  | [] => []
  | call :: calls =>
    match call.run t with
    | .ok t' => .ok t' :: t'.answers calls
    | .error e => .error e :: t.answers calls

theorem get?_rootId (t : Tree) : t.get? rootId = some t.root :=
  Array.getElem?_eq_getElem t.nonempty

/-- On a lone root either call plants the members of an object. -/
theorem Call.run_planted (kind : String) (call : Call) :
    ∃ ms, call.run (ofRoot kind) = .ok (plantMembers (ofRoot kind) rootId ms).sealed := by
  cases call with
  | build ms => exact ⟨ms, expand_ofRoot kind _ _⟩
  | buildProgram body => exact ⟨_, buildProgram_eq kind body⟩

theorem Call.run_ofRoot (kind : String) (call : Call) :
    ∃ t, call.run (ofRoot kind) = .ok t ∧ t.Grown ∧ t.built = true ∧ t.root.kind = kind := by
  obtain ⟨ms, hms⟩ := call.run_planted kind
  obtain ⟨hgrown, hlaid⟩ := plantMembers_ofRoot kind ms
  refine ⟨_, hms, hgrown.sealed, rfl, ?_⟩
  cases hlaid with
  | cons hn hkind _ _ _ =>
    rw [get?_rootId, Option.some.injEq] at hn
    subst hn
    exact hkind

theorem Call.run_of_built {t : Tree} (h : t.built = true) (call : Call) :
    call.run t = .error (.rootReused t.root.kind) := by
  cases call with
  | build ms => exact expand_of_built h _
  | buildProgram body => exact expand_of_built h _

theorem answers_of_built {t : Tree} (h : t.built = true) (calls : List Call) :
    t.answers calls = List.replicate calls.length (.error (.rootReused t.root.kind)) := by
  induction calls with
  | nil => rfl
  | cons call calls ih =>
    rw [answers, call.run_of_built h]
    exact congrArg _ ih

/-- The records of a growing tree's shape agree, the iterator over a node ends
and gives the node and all below it once and in pre-order, and of the calls
made on a lone root the first succeeds and no other. -/
theorem Grown.consistent_visits_answers {t : Tree} (h : t.Grown) (kind : String) (call : Call)
    (calls : List Call) :
    t.Consistent ∧
    (∀ i n, t.get? i = some n → i ≠ rootId →
      ∃ p < i, n.parent = some p ∧ ∀ q, (t.childIds q).count i = if q = p then 1 else 0) ∧
    (∀ id < t.size, t.Visits [id] (t.preorder id) ∧ (t.preorder id).Nodup ∧
      (∀ x, x ∈ t.preorder id ↔ t.Descends id x) ∧
      t.preorder id = id :: (t.childIds id).flatMap t.preorder) ∧
    ∃ t' : Tree, t'.Grown ∧ (Tree.ofRoot kind).answers (call :: calls) =
      .ok t' :: List.replicate calls.length (.error (.rootReused kind)) := by
  have hc := h.consistent
  refine ⟨hc, fun i n hn hi => hc.count_childIds hn hi, fun id _ => ?_, ?_⟩
  · exact ⟨hc.visits_preorder id, hc.nodup_preorder id, fun x => hc.mem_preorder_iff,
      hc.preorder_eq_cons id⟩
  · obtain ⟨t', hrun, hgrown, hbuilt, hroot⟩ := call.run_ofRoot kind
    refine ⟨t', hgrown, ?_⟩
    rw [answers, hrun]
    simp only [answers_of_built hbuilt, hroot]

/-- The first call adds no child, and still the second is refused. -/
theorem answers_childless :
    interleaved.Grown ∧ interleaved.preorder 0 = [0, 1, 3, 2] ∧ interleaved.Descends 0 3 ∧
    ∃ t', (ofRoot "Program").answers [.build [], .buildProgram [.null]] =
      [.ok t', .error (.rootReused "Program")] := by
  have hgrown : interleaved.Grown :=
    .addChild (.addChild (.addChild (.ofRoot _) (by decide) _ _ _) (by decide) _ _ _)
      (by decide) _ _ _
  have hpreorder : interleaved.preorder 0 = [0, 1, 3, 2] := by decide
  obtain ⟨-, -, hvisits, t', -, hanswers⟩ :=
    hgrown.consistent_visits_answers "Program" (.build []) [.buildProgram [.null]]
  obtain ⟨-, -, hmem, -⟩ := hvisits 0 (by decide)
  refine ⟨hgrown, hpreorder, (hmem 3).mp ?_, t', hanswers⟩
  rw [hpreorder]
  decide

end Tree

end ScriptFeatures
