import Mathlib.Data.List.Nodup
import Mathlib.Data.List.Perm.Subperm
import ScriptFeatures.Tree.Walk
import ScriptFeatures.Proofs.Tree.Consistent

/-!
The pre-order walk and the table of first descendants, compared with plain
recursion. `Tree.subtree` lists a node and, child by child, what lies below
it. In a consistent tree no node is listed twice, so the walk with a stack has
visits enough to reach the end of the list, and the pass over the array from
its end finds in every node's children all that a search below it finds.
-/

namespace ScriptFeatures.Tree

/-- A node followed by the subtrees of its children, in order. The condition
on a child is that of a consistent tree, and makes the recursion end in any
other. -/
def subtree (t : Tree) (id : NodeId) : List NodeId :=
  id :: (t.childIds id).flatMap fun child =>
    if id < child ∧ child < t.size then t.subtree child else []
  termination_by t.size - id
  decreasing_by
    rename_i h
    exact Nat.sub_lt_sub_left (Nat.lt_trans h.1 h.2) h.1

namespace Consistent

variable {t : Tree}

@[elab_as_elim]
theorem induction_on_children (h : t.Consistent) {motive : NodeId → Prop}
    (step : ∀ id, (∀ child ∈ t.childIds id, motive child) → motive id) (id : NodeId) :
    motive id := by
  induction hd : t.size - id using Nat.strongRecOn generalizing id with
  | ind d ih =>
    refine step id fun child hchild => ?_
    have hlt := h.lt_child hchild
    have hsize := h.child_lt_size hchild
    exact ih (t.size - child) (hd ▸ Nat.sub_lt_sub_left (Nat.lt_trans hlt hsize) hlt) child rfl

theorem subtree_eq (h : t.Consistent) (id : NodeId) :
    t.subtree id = id :: (t.childIds id).flatMap t.subtree := by
  rw [subtree, List.flatMap_def, List.flatMap_def]
  congr 2
  refine List.map_congr_left fun child hchild => ?_
  rw [if_pos ⟨h.lt_child hchild, h.child_lt_size hchild⟩]

theorem mem_subtree (h : t.Consistent) {id x : NodeId} :
    x ∈ t.subtree id ↔ x = id ∨ ∃ child ∈ t.childIds id, x ∈ t.subtree child := by
  rw [h.subtree_eq, List.mem_cons, List.mem_flatMap]

theorem le_of_mem_subtree (h : t.Consistent) {id x : NodeId} (hx : x ∈ t.subtree id) :
    id ≤ x := by
  induction id using h.induction_on_children with
  | step id ih =>
    rcases h.mem_subtree.mp hx with rfl | ⟨child, hchild, hx⟩
    · exact Nat.le_refl x
    · exact Nat.le_trans (Nat.le_of_lt (h.lt_child hchild)) (ih child hchild hx)

theorem lt_size_of_mem_subtree (h : t.Consistent) {id x : NodeId} (hid : id < t.size)
    (hx : x ∈ t.subtree id) : x < t.size := by
  induction id using h.induction_on_children with
  | step id ih =>
    rcases h.mem_subtree.mp hx with rfl | ⟨child, hchild, hx⟩
    · exact hid
    · exact ih child hchild (h.child_lt_size hchild) hx

theorem parent_mem_subtree (h : t.Consistent) {id p x : NodeId} (hx : x ∈ t.subtree id)
    (hne : x ≠ id) (hp : x ∈ t.childIds p) : p ∈ t.subtree id := by
  induction id using h.induction_on_children with
  | step id ih =>
    rcases h.mem_subtree.mp hx with heq | ⟨child, hchild, hx⟩
    · exact absurd heq hne
    · by_cases heq : x = child
      · subst heq
        rw [h.parent_unique hp hchild]
        exact h.mem_subtree.mpr (Or.inl rfl)
      · exact h.mem_subtree.mpr (Or.inr ⟨child, hchild, ih child hchild hx heq⟩)

theorem disjoint_subtrees (h : t.Consistent) {p c d : NodeId} (hc : c ∈ t.childIds p)
    (hd : d ∈ t.childIds p) (hne : c ≠ d) : List.Disjoint (t.subtree c) (t.subtree d) := by
  -- the root of one subtree is not in the other, for their parent comes before both
  have hroot {c d : NodeId} (hc : c ∈ t.childIds p) (hd : d ∈ t.childIds p) (hne : c ≠ d) :
      c ∉ t.subtree d := fun hmem =>
    Nat.not_le_of_lt (h.lt_child hd) (h.le_of_mem_subtree (h.parent_mem_subtree hmem hne hc))
  intro x hxc hxd
  induction x using Nat.strongRecOn with
  | ind x ih =>
    by_cases hxeq : x = c
    · exact hroot hc hd hne (hxeq ▸ hxd)
    · have hne' : x ≠ d := fun heq => hroot hd hc hne.symm (heq ▸ hxc)
      have hpos : 0 < x :=
        Nat.lt_of_lt_of_le (Nat.zero_lt_of_lt (h.lt_child hc)) (h.le_of_mem_subtree hxc)
      obtain ⟨n, hn⟩ := exists_get?
        (h.lt_size_of_mem_subtree (h.child_lt_size hc) hxc)
      obtain ⟨q, hq, hparent⟩ := h.parent_lt hn hpos
      have hmem : x ∈ t.childIds q := h.mem_childIds.mpr ⟨n, hn, hparent⟩
      exact ih q hq (h.parent_mem_subtree hxc hxeq hmem) (h.parent_mem_subtree hxd hne' hmem)

theorem nodup_subtree (h : t.Consistent) (id : NodeId) : (t.subtree id).Nodup := by
  induction id using h.induction_on_children with
  | step id ih =>
    rw [h.subtree_eq, List.nodup_cons, List.nodup_flatMap]
    refine ⟨fun hmem => ?_, ih, ?_⟩
    · obtain ⟨child, hchild, hid⟩ := List.mem_flatMap.mp hmem
      exact Nat.not_le_of_lt (h.lt_child hchild) (h.le_of_mem_subtree hid)
    · refine (h.sorted id).imp_of_mem fun hc hd hlt => ?_
      exact h.disjoint_subtrees hc hd (Nat.ne_of_lt hlt)

theorem length_subtree_le (h : t.Consistent) (id : NodeId) :
    (t.subtree id).length ≤ t.size := by
  by_cases hid : id < t.size
  · have hsubset : t.subtree id ⊆ List.range t.size := fun x hx =>
      List.mem_range.mpr (h.lt_size_of_mem_subtree hid hx)
    simpa using (List.subperm_of_subset (h.nodup_subtree id) hsubset).length_le
  · rw [h.subtree_eq, childIds_eq_nil (Nat.le_of_not_lt hid)]
    exact t.nonempty

/-! ### The walk -/

theorem walk_eq (h : t.Consistent) (fuel : Nat) (stack : List NodeId) (visited : Array NodeId)
    (hfuel : (stack.flatMap t.subtree).length ≤ fuel) :
    (t.walk fuel stack visited).toList = visited.toList ++ stack.flatMap t.subtree := by
  induction fuel generalizing stack visited with
  | zero =>
    have hnil : stack.flatMap t.subtree = [] := List.eq_nil_of_length_eq_zero (by omega)
    rw [walk, hnil, List.append_nil]
  | succ fuel ih =>
    cases stack with
    | nil => simp [walk, next?]
    | cons id stack =>
      -- a visit trades a node for its children and leaves one node fewer to visit
      have hcons : (id :: stack).flatMap t.subtree =
          id :: (t.childIds id ++ stack).flatMap t.subtree := by
        rw [List.flatMap_cons, h.subtree_eq, List.flatMap_append, List.cons_append]
      rw [hcons, List.length_cons] at hfuel
      simp only [walk, next?]
      rw [ih _ _ (by omega), hcons, Array.toList_push, List.append_assoc]
      rfl

theorem preorder_eq (h : t.Consistent) (id : NodeId) : t.preorder id = t.subtree id := by
  have hstack : [id].flatMap t.subtree = t.subtree id := List.flatMap_singleton _ _
  rw [preorder, h.walk_eq t.size [id] #[] (hstack ▸ h.length_subtree_le id), hstack]
  rfl

/-! ### The first descendant of a kind -/

theorem findDescendant?_eq (h : t.Consistent) (id : NodeId) (kind : String) :
    t.findDescendant? id kind =
      ((t.childIds id).flatMap t.subtree).find? (t.hasKind kind) := by
  rw [findDescendant?, h.preorder_eq, h.subtree_eq, List.drop_one, List.tail_cons]

/-- A table that is right for some nodes turns a search of their subtrees
into a look at each of them. -/
theorem findSome?_eq_find? (h : t.Consistent) (kind : String) (table : Array (Option NodeId))
    (ids : List NodeId)
    (htable : ∀ id ∈ ids, table[id]? = some (t.findDescendant? id kind)) :
    (ids.findSome? fun id => if t.hasKind kind id then some id else (table[id]?).join) =
      (ids.flatMap t.subtree).find? (t.hasKind kind) := by
  induction ids with
  | nil => rfl
  | cons id ids ih =>
    rw [List.findSome?_cons, htable id (List.mem_cons_self ..), Option.join_some,
      ih fun id hid => htable id (List.mem_cons_of_mem _ hid), List.flatMap_cons,
      List.find?_append, h.subtree_eq id, List.find?_cons, h.findDescendant?_eq]
    cases t.hasKind kind id with
    | true => rfl
    | false => cases ((t.childIds id).flatMap t.subtree).find? (t.hasKind kind) <;> rfl

theorem firstBelow_eq (h : t.Consistent) (kind : String) (table : Array (Option NodeId))
    (id : NodeId)
    (htable : ∀ child ∈ t.childIds id, table[child]? = some (t.findDescendant? child kind)) :
    t.firstBelow kind table id = t.findDescendant? id kind := by
  rw [firstBelow, h.findSome?_eq_find? kind table _ htable, h.findDescendant?_eq]

end Consistent

theorem size_fillFirst (t : Tree) (kind : String) (n : Nat) (table : Array (Option NodeId)) :
    (t.fillFirst kind n table).size = table.size := by
  induction n generalizing table with
  | zero => rfl
  | succ n ih => rw [fillFirst, ih, Array.size_setIfInBounds]

/-- The pass keeps the table right for the nodes it has passed. -/
theorem Consistent.fillFirst_getElem? {t : Tree} (h : t.Consistent) (kind : String) (n : Nat)
    (table : Array (Option NodeId)) (hsize : table.size = t.size)
    (htable : ∀ id, n ≤ id → id < t.size → table[id]? = some (t.findDescendant? id kind))
    {id : NodeId} (hid : id < t.size) :
    (t.fillFirst kind n table)[id]? = some (t.findDescendant? id kind) := by
  induction n generalizing table with
  | zero => exact htable id (Nat.zero_le id) hid
  | succ n ih =>
    refine ih _ (by rw [Array.size_setIfInBounds, hsize]) fun i hi hlt => ?_
    rw [Array.getElem?_setIfInBounds]
    by_cases heq : n = i
    · -- the children of a node come after it, so the pass has filled their entries
      subst heq
      rw [if_pos rfl, if_pos (hsize ▸ hlt), h.firstBelow_eq]
      intro child hchild
      exact htable child (h.lt_child hchild) (h.child_lt_size hchild)
    · rw [if_neg heq]
      exact htable i (by omega) hlt

theorem Consistent.firstDescendants_getElem? {t : Tree} (h : t.Consistent) (kind : String)
    {id : NodeId} (hid : id < t.size) :
    (t.firstDescendants kind)[id]? = some (t.findDescendant? id kind) := by
  refine h.fillFirst_getElem? kind t.size _ Array.size_replicate ?_ hid
  intro i hi hlt
  omega

/-- The table holds, for every node of a growing tree, what a search below
the node finds. -/
theorem Grown.firstDescendants_eq {t : Tree} (h : t.Grown) (kind : String) :
    t.firstDescendants kind = Array.ofFn fun id : Fin t.size => t.findDescendant? id kind := by
  refine Array.ext_getElem? fun i => ?_
  by_cases hi : i < t.size
  · rw [h.consistent.firstDescendants_getElem? kind hi, Array.getElem?_ofFn, dif_pos hi]
  · have hsize : (t.firstDescendants kind).size = t.size :=
      (size_fillFirst ..).trans Array.size_replicate
    rw [Array.getElem?_eq_none (by omega), Array.getElem?_eq_none (by simpa using hi)]

/-- A tree whose first branch grows on after its second has begun. -/
def interleaved : Tree :=
  (((ofRoot "Program").addChild 0 "BlockStatement" "body" true).addChild 0 "Identifier" "body"
    true).addChild 1 "Identifier" "body" true

theorem firstDescendants_interleaved :
    interleaved.Grown ∧
      interleaved.firstDescendants "Identifier" = #[some 3, some 3, none, none] := by
  have hgrown : interleaved.Grown :=
    .addChild (.addChild (.addChild (.ofRoot _) (by decide) _ _ _) (by decide) _ _ _)
      (by decide) _ _ _
  refine ⟨hgrown, ?_⟩
  rw [hgrown.firstDescendants_eq]
  decide

end ScriptFeatures.Tree
