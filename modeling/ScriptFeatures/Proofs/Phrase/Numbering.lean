import Mathlib.Data.Set.Card
import ScriptFeatures.Proofs.Growth.Calls

/-!
The numbers of the nodes. Whatever document a tree is built from, the nodes are
numbered in pre-order: what is below a node, at whatever depth and in lists or
not, lies right behind it and without a gap. So the iterator over a node gives
as many numbers in a row as there are nodes in its subtree
(`Grown.visits_range'`), although it keeps its nodes on another stack than the
one that the tree grew from.
-/

namespace ScriptFeatures.Tree

open Json Growth

/-- How many nodes a node and what is below it are. -/
noncomputable def subtreeSize (t : Tree) (id : NodeId) : ℕ := Set.ncard {x | t.Descends id x}

/-! ### Stretches of nodes -/

theorem cons_range'_append {a b c : Nat} (hab : a < b) (hbc : b ≤ c) :
    a :: (List.range' (a + 1) (b - (a + 1)) ++ List.range' b (c - b)) =
      List.range' a (c - a) := by
  have hnext : a + 1 + (b - (a + 1)) = b := by omega
  have hlength : b - (a + 1) + (c - b) + 1 = c - a := by omega
  have happend := @List.range'_append_1 (a + 1) (b - (a + 1)) (c - b)
  rw [hnext] at happend
  rw [happend, ← List.range'_succ, hlength]

namespace Laid

variable {t : Tree} {a c : Nat} {ids : List NodeId} {ps : List Phrase}

/-- Nodes that are laid out, with all that is below them, are numbered in
pre-order without gaps. -/
theorem flatMap_subtree (hc : t.Consistent) (h : t.Laid a ids ps c) :
    ids.flatMap t.subtree = List.range' a (c - a) := by
  induction h with
  | nil a => rw [Nat.sub_self, List.flatMap_nil, List.range'_zero]
  | cons hn _ _ below rest ihbelow ihrest =>
    rw [List.flatMap_cons, hc.subtree_eq, childIds_eq_of_get? hn, ihbelow, ihrest,
      List.cons_append]
    exact cons_range'_append below.le rest.le

theorem exists_subtree_eq (hc : t.Consistent) (h : t.Laid a ids ps c) {id : Nat}
    (hlow : a ≤ id) (hhigh : id < c) : ∃ size, t.subtree id = List.range' id size := by
  induction h with
  | nil a => exact absurd hhigh (Nat.not_lt_of_le hlow)
  | @cons a b c n ids p ps hn hkind hattributes below rest ihbelow ihrest =>
    rcases Nat.eq_or_lt_of_le hlow with rfl | hlater
    · -- the node is laid out by itself, up to where its parts end
      have halone : t.Laid a [a] [p] b := .cons hn hkind hattributes below (.nil b)
      have hnumbered := halone.flatMap_subtree hc
      rw [List.flatMap_singleton] at hnumbered
      exact ⟨b - a, hnumbered⟩
    · rcases Nat.lt_or_ge id b with hinside | hbehind
      · exact ihbelow hlater hinside
      · exact ihrest hbehind hhigh

theorem preorder_eq (hc : t.Consistent) {p : Phrase} (h : t.Laid rootId [rootId] [p] t.size) :
    t.preorder rootId = List.range t.size := by
  have hnumbered := h.flatMap_subtree hc
  rw [List.flatMap_singleton] at hnumbered
  rw [hc.preorder_eq, hnumbered, List.range_eq_range']
  rfl

end Laid

/-! ### Calls -/

/-- A tree that takes a call is a lone root, under which the call plants the
members of an object. -/
theorem Call.exists_planted {t t' : Tree} {call : Call} (h : call.run t = .ok t') :
    t.isFresh = true ∧ ∃ ms, t' = (plantMembers t rootId ms).sealed := by
  have hexpand (start : Tree) (f : Frame) (hstart : t.expand (start, f) = .ok t') :
      t.isFresh = true ∧ t' = (plantFrame start f).sealed := by
    rw [expand] at hstart
    split at hstart
    · next hfresh =>
      rw [grow_singleton] at hstart
      exact ⟨hfresh, (Except.ok.inj hstart).symm⟩
    · contradiction
  cases call with
  | build ms =>
    obtain ⟨hfresh, ht'⟩ := hexpand _ _ h
    exact ⟨hfresh, ms, ht'⟩
  | buildProgram body =>
    obtain ⟨hfresh, ht'⟩ := hexpand _ _ h
    refine ⟨hfresh, [("body", .array body)], ?_⟩
    rw [ht', plantFrame_list t rootId (by decide)]
    rfl

theorem size_of_isFresh {t : Tree} (h : t.isFresh = true) : t.size = 1 := by
  rw [isFresh, Bool.and_eq_true, beq_iff_eq] at h
  exact h.2

theorem Consistent.childIds_of_isFresh {t : Tree} (h : t.Consistent) (hfresh : t.isFresh = true)
    (id : NodeId) : t.childIds id = [] := by
  refine List.eq_nil_iff_forall_not_mem.mpr fun child hchild => ?_
  have hlow : 0 < child := Nat.zero_lt_of_lt (h.lt_child hchild)
  have hhigh : child < 1 := size_of_isFresh hfresh ▸ h.child_lt_size hchild
  exact absurd hhigh (Nat.not_lt_of_le hlow)

theorem Grown.of_call {t t' : Tree} (h : t.Grown) {call : Call} (hrun : call.run t = .ok t') :
    t'.Grown := by
  obtain ⟨-, ms, rfl⟩ := Call.exists_planted hrun
  obtain ⟨ids, hplanted⟩ := plantMembers_extends t.nonempty ms
  exact (hplanted.grown h).sealed

/-- After a call every node is numbered right in front of what is below it. -/
theorem Grown.exists_subtree_eq {t t' : Tree} (h : t.Grown) {call : Call}
    (hrun : call.run t = .ok t') {id : NodeId} (hid : id < t'.size) :
    ∃ size, t'.subtree id = List.range' id size := by
  have hc := (h.of_call hrun).consistent
  obtain ⟨hfresh, ms, rfl⟩ := Call.exists_planted hrun
  have hroot : rootId < t.size := t.nonempty
  obtain ⟨ids, hplanted⟩ := plantMembers_extends hroot ms
  have hlaid : (plantMembers t rootId ms).sealed.Laid 1 ids _ _ :=
    (size_of_isFresh hfresh ▸ hplanted.laid).congr fun _ _ _ => rfl
  rcases Nat.eq_zero_or_pos id with rfl | hlater
  · -- the root had no children, so all that is below it was planted
    have hchildren : (plantMembers t rootId ms).sealed.childIds rootId = ids := by
      obtain ⟨n, hn⟩ := exists_get? hroot
      have hlone := h.consistent.childIds_of_isFresh hfresh rootId
      have hkept := hplanted.kept rootId hroot
      rw [childIds_eq_of_get? hn] at hlone
      rw [hn, Option.map_some, if_pos rfl] at hkept
      rw [childIds_sealed, childIds_eq_of_get? hkept]
      simp [hlone]
    refine ⟨(plantMembers t rootId ms).size - 1 + 1, ?_⟩
    rw [List.range'_succ, ← hlaid.flatMap_subtree hc, ← hchildren]
    exact hc.subtree_eq rootId
  · exact hlaid.exists_subtree_eq hc hlater hid

/-! ### Subtrees as blocks -/

namespace Consistent

variable {t : Tree}

theorem subtreeSize_eq (h : t.Consistent) (id : NodeId) :
    t.subtreeSize id = (t.subtree id).length := by
  have hset : {x | t.Descends id x} = (t.subtree id).toFinset := by
    ext x
    simp [← h.mem_preorder_iff, h.preorder_eq]
  rw [subtreeSize, hset, Set.ncard_coe_finset, List.toFinset_card_of_nodup (h.nodup_subtree id)]

theorem descends_root (h : t.Consistent) {id : NodeId} (hid : id < t.size) :
    t.Descends rootId id := by
  induction id using Nat.strongRecOn with
  | ind id ih =>
    rcases Nat.eq_zero_or_pos id with rfl | hpos
    · exact .refl
    · obtain ⟨n, hn⟩ := exists_get? hid
      obtain ⟨p, hp, hparent⟩ := h.parent_lt hn hpos
      exact (ih p hp (Nat.lt_trans hp hid)).tail (h.mem_childIds.mpr ⟨n, hn, hparent⟩)

theorem eq_succ_of_subtree_eq (h : t.Consistent) {id child : NodeId} {children : List NodeId}
    {size : ℕ} (hchildren : t.childIds id = child :: children)
    (hsubtree : t.subtree id = List.range' id size) : child = id + 1 := by
  rw [h.subtree_eq, hchildren, List.flatMap_cons, h.subtree_eq child] at hsubtree
  match size with
  | 0 | 1 => simp at hsubtree
  | size + 2 =>
    rw [List.range'_succ, List.range'_succ] at hsubtree
    exact (List.cons.inj (List.cons.inj hsubtree).2).1

theorem eq_size_of_subtree_eq (h : t.Consistent) {size : ℕ}
    (hsubtree : t.subtree rootId = List.range' rootId size) : size = t.size := by
  refine eq_of_forall_lt_iff fun id => ?_
  have hmem : id ∈ t.subtree rootId ↔ id < size := by
    rw [hsubtree, List.mem_range'_1]
    simp [rootId]
  rw [← hmem]
  refine ⟨h.lt_size_of_mem_subtree t.nonempty, fun hid => ?_⟩
  rw [← h.preorder_eq, h.mem_preorder_iff]
  exact h.descends_root hid

end Consistent

/-- In a tree that a call has built, from whatever document, the iterator over
a node gives consecutive numbers: the node's own and as many as there are nodes
below it. A subtree is a block of the array, the first child comes right after
its parent, and the pre-order of all nodes is the order in which they were
added. -/
theorem Grown.visits_range' {t t' : Tree} (h : t.Grown) {call : Call}
    (hrun : call.run t = .ok t') {id : NodeId} (hid : id < t'.size) :
    t'.preorder id = List.range' id (t'.subtreeSize id) ∧
    t'.Visits [id] (List.range' id (t'.subtreeSize id)) ∧
    (∀ x, t'.Descends id x ↔ id ≤ x ∧ x < id + t'.subtreeSize id) ∧
    (t'.childIds id ≠ [] → ∃ n, t'.firstChild? id = some n ∧ n.id = id + 1) ∧
    t'.preorder rootId = List.range t'.size := by
  have hc := (h.of_call hrun).consistent
  have hsubtree {i : NodeId} (hi : i < t'.size) :
      t'.subtree i = List.range' i (t'.subtreeSize i) := by
    obtain ⟨size, hsize⟩ := h.exists_subtree_eq hrun hi
    rw [hc.subtreeSize_eq, hsize, List.length_range']
  have hpreorder : t'.preorder id = List.range' id (t'.subtreeSize id) := by
    rw [hc.preorder_eq, hsubtree hid]
  refine ⟨hpreorder, hpreorder ▸ hc.visits_preorder id, fun x => ?_, fun hchildren => ?_, ?_⟩
  · rw [← hc.mem_preorder_iff, hpreorder, List.mem_range'_1]
  · obtain ⟨child, children, hcons⟩ := List.exists_cons_of_ne_nil hchildren
    have hmem : child ∈ t'.childIds id := hcons ▸ List.mem_cons_self
    obtain ⟨n, hn⟩ := exists_get? (hc.child_lt_size hmem)
    refine ⟨n, ?_, (hc.id_eq hn).trans (hc.eq_succ_of_subtree_eq hcons (hsubtree hid))⟩
    rw [firstChild?, hcons]
    exact hn
  · have hroot := hsubtree (i := rootId) t'.nonempty
    rw [hc.preorder_eq, hroot, hc.eq_size_of_subtree_eq hroot, List.range_eq_range']
    rfl

def markedRoot : Tree := (ofRoot "Program").setAttribute 0 "sourceType" (.string "script")

/-- A call with two arguments, one of which has a part of its own, and a
statement behind it. -/
def callBody : List Json.Value :=
  [.object [("type", .string "CallExpression"),
      ("callee", .object [("type", .string "Identifier"), ("name", .string "f")]),
      ("arguments", .array [
        .object [("type", .string "SpreadElement"),
          ("argument", .object [("type", .string "Identifier")])],
        .null,
        .object [("type", .string "ThisExpression")]])],
    .object [("type", .string "EmptyStatement")]]

def callTree : Tree :=
  ((((((markedRoot.addChild 0 "CallExpression" "body" true).addChild 1 "Identifier" "callee"
    false).setAttribute 2 "name" (.string "f")).addChild 1 "SpreadElement" "arguments"
    true).addChild 3 "Identifier" "argument" false).addChild 1 "ThisExpression" "arguments"
    true).addChild 0 "EmptyStatement" "body" true |>.sealed

theorem visits_range'_callTree :
    markedRoot.Grown ∧ (Call.buildProgram callBody).run markedRoot = .ok callTree ∧
      1 < callTree.size ∧ callTree.Visits [1] [1, 2, 3, 4, 5] ∧ callTree.subtreeSize 1 = 5 := by
  have hgrown : markedRoot.Grown := .setAttribute (.ofRoot _) _ _ _
  have hrun : (Call.buildProgram callBody).run markedRoot = .ok callTree := by
    with_unfolding_all rfl
  have hid : 1 < callTree.size := by decide
  obtain ⟨hpreorder, hvisits, -⟩ := hgrown.visits_range' hrun hid
  have hlist : callTree.preorder 1 = [1, 2, 3, 4, 5] := by decide
  have hsize : callTree.subtreeSize 1 = 5 := by
    simpa [hlist] using (congrArg List.length hpreorder).symm
  rw [hsize] at hvisits
  exact ⟨hgrown, hrun, hid, hvisits, hsize⟩

end ScriptFeatures.Tree
