import Mathlib.Logic.Relation
import ScriptFeatures.Proofs.Tree.Subtree

/-!
The iterator over a node and what lies below it. It gives the node on top of
its stack and puts the children in its place, until the stack is empty.
`Tree.Visits` follows it to that end with no bound on the number of visits, and
`Tree.Descends` says in terms of child lists alone what lies below a node. In a
consistent tree the iterator ends, having given the subtree in pre-order.
-/

namespace ScriptFeatures.Tree

/-- From a stack the iterator gives some nodes, one at a time, and then has
come to its end. -/
inductive Visits (t : Tree) : List NodeId → List NodeId → Prop
  | stop {stack : List NodeId} (h : t.next? stack = none) : Visits t stack []
  | give {stack rest ids : List NodeId} {id : NodeId} (h : t.next? stack = some (id, rest))
      (more : Visits t rest ids) : Visits t stack (id :: ids)

/-- A node is another one or lies below it, at whatever depth. -/
def Descends (t : Tree) : NodeId → NodeId → Prop :=
  Relation.ReflTransGen fun parent child => child ∈ t.childIds parent

theorem visits_flatMap {t : Tree} {below : NodeId → List NodeId} {ids rest visited : List NodeId}
    (hids : ∀ id ∈ ids, ∀ rest visited, t.Visits rest visited →
      t.Visits (id :: rest) (below id ++ visited))
    (hrest : t.Visits rest visited) :
    t.Visits (ids ++ rest) (ids.flatMap below ++ visited) := by
  induction ids with
  | nil => exact hrest
  | cons id ids ih =>
    have hmore := ih fun id hid => hids id (List.mem_cons_of_mem _ hid)
    rw [List.cons_append, List.flatMap_cons, List.append_assoc]
    exact hids id List.mem_cons_self _ _ hmore

namespace Consistent

variable {t : Tree}

theorem visits_cons (h : t.Consistent) (id : NodeId) :
    ∀ rest visited, t.Visits rest visited → t.Visits (id :: rest) (t.subtree id ++ visited) := by
  induction id using h.induction_on_children with
  | step id ih =>
    intro rest visited hrest
    rw [h.subtree_eq, List.cons_append]
    -- the children take the place of the node that is given
    exact .give rfl (visits_flatMap ih hrest)

/-- The iterator over a node comes to its end, and what it gives is the
pre-order of the node. -/
theorem visits_preorder (h : t.Consistent) (id : NodeId) : t.Visits [id] (t.preorder id) := by
  have hnil : t.Visits [] [] := .stop rfl
  have hvisits := h.visits_cons id [] [] hnil
  rw [List.append_nil] at hvisits
  rw [h.preorder_eq]
  exact hvisits

theorem preorder_eq_cons (h : t.Consistent) (id : NodeId) :
    t.preorder id = id :: (t.childIds id).flatMap t.preorder := by
  have hfun : t.preorder = t.subtree := funext h.preorder_eq
  rw [hfun]
  exact h.subtree_eq id

theorem nodup_preorder (h : t.Consistent) (id : NodeId) : (t.preorder id).Nodup := by
  rw [h.preorder_eq]
  exact h.nodup_subtree id

theorem mem_preorder_iff (h : t.Consistent) {id x : NodeId} :
    x ∈ t.preorder id ↔ t.Descends id x := by
  rw [h.preorder_eq]
  constructor
  · intro hx
    induction id using h.induction_on_children with
    | step id ih =>
      rcases h.mem_subtree.mp hx with rfl | ⟨child, hchild, hx⟩
      · exact .refl
      · exact .head hchild (ih child hchild hx)
  · intro hx
    induction hx using Relation.ReflTransGen.head_induction_on with
    | refl => exact h.mem_subtree.mpr (Or.inl rfl)
    | head hchild _ ih => exact h.mem_subtree.mpr (Or.inr ⟨_, hchild, ih⟩)

/-- A node other than the root stands once in the child list of its parent and
in no other one. -/
theorem count_childIds (h : t.Consistent) {i : NodeId} {n : Node} (hn : t.get? i = some n)
    (hi : i ≠ rootId) :
    ∃ p < i, n.parent = some p ∧ ∀ q, (t.childIds q).count i = if q = p then 1 else 0 := by
  obtain ⟨p, hlt, hparent⟩ := h.parent_lt hn (Nat.pos_of_ne_zero hi)
  have hmem : i ∈ t.childIds p := h.mem_childIds.mpr ⟨n, hn, hparent⟩
  refine ⟨p, hlt, hparent, fun q => ?_⟩
  by_cases hq : q = p
  · subst hq
    have hnodup : (t.childIds q).Nodup := (h.sorted q).imp Nat.ne_of_lt
    rw [if_pos rfl]
    exact List.count_eq_one_of_mem hnodup hmem
  · have hother : i ∉ t.childIds q := fun hmem' => hq (h.parent_unique hmem' hmem)
    rw [if_neg hq]
    exact List.count_eq_zero_of_not_mem hother

end Consistent

end ScriptFeatures.Tree
