import ScriptFeatures.Tree.Basic

/-!
What a tree keeps while it grows. The array holds the shape of a tree three
times over: the index of a node is its identifier, every node but the root
names its parent, and every node lists its children. `Tree.Consistent` says
that the three agree. It holds of a lone root, and additions of children and
attributes keep it, in whatever order the nodes are added.
-/

namespace ScriptFeatures.Tree

/-! ### What the operations do to a node -/

@[simp] theorem size_ofRoot (kind : String) : (ofRoot kind).size = 1 := rfl

@[simp] theorem size_sealed (t : Tree) : t.sealed.size = t.size := rfl

@[simp] theorem size_addChild (t : Tree) (parent : NodeId) (kind tag : String) (fromList : Bool) :
    (t.addChild parent kind tag fromList).size = t.size + 1 := by
  simp [size, addChild]

@[simp] theorem size_setAttribute (t : Tree) (id : NodeId) (name : String) (a : Attribute) :
    (t.setAttribute id name a).size = t.size := by
  simp [size, setAttribute]

theorem lt_size_of_get? {t : Tree} {i : NodeId} {n : Node} (h : t.get? i = some n) :
    i < t.size :=
  (Array.getElem?_eq_some_iff.mp h).1

theorem exists_get? {t : Tree} {i : NodeId} (h : i < t.size) : ∃ n, t.get? i = some n :=
  ⟨t.nodes[i], Array.getElem?_eq_getElem h⟩

@[simp] theorem get?_sealed (t : Tree) (i : NodeId) : t.sealed.get? i = t.get? i := rfl

theorem get?_ofRoot (kind : String) (i : NodeId) :
    (ofRoot kind).get? i =
      if i = 0 then some ⟨0, kind, none, false, none, #[], []⟩ else none := by
  cases i with
  | zero => rfl
  | succ i => simp [get?, ofRoot]

theorem get?_addChild (t : Tree) (parent : NodeId) (kind tag : String) (fromList : Bool)
    (i : NodeId) :
    (t.addChild parent kind tag fromList).get? i =
      if i = t.size then some ⟨t.size, kind, some tag, fromList, some parent, #[], []⟩
      else (t.get? i).map fun n =>
        if i = parent then { n with children := n.children.push t.size } else n := by
  by_cases hnew : i = t.size
  · subst hnew
    rw [if_pos rfl, get?, addChild, Array.getElem?_push, Array.size_modify]
    exact if_pos rfl
  · have hold : i ≠ t.nodes.size := hnew
    rw [if_neg hnew, get?, addChild, Array.getElem?_push, Array.size_modify, if_neg hold,
      Array.getElem?_modify]
    change _ = (t.nodes[i]?).map _
    by_cases hi : parent = i
    · simp [hi, nextId, size]
    · simp [hi, Ne.symm hi]

theorem get?_setAttribute (t : Tree) (id : NodeId) (name : String) (a : Attribute) (i : NodeId) :
    (t.setAttribute id name a).get? i =
      (t.get? i).map fun n =>
        if i = id then { n with attributes := n.attributes.insert name a } else n := by
  simp only [get?, setAttribute, Array.getElem?_modify]
  by_cases hi : id = i
  · simp [hi]
  · simp [hi, Ne.symm hi]

theorem childIds_eq_of_get? {t : Tree} {i : NodeId} {n : Node} (h : t.get? i = some n) :
    t.childIds i = n.children.toList := by
  simp [childIds, h]

theorem childIds_eq_nil {t : Tree} {i : NodeId} (h : t.size ≤ i) : t.childIds i = [] := by
  have hnone : t.get? i = none := Array.getElem?_eq_none h
  simp [childIds, hnone]

@[simp] theorem childIds_ofRoot (kind : String) (i : NodeId) : (ofRoot kind).childIds i = [] := by
  rw [childIds, get?_ofRoot]
  by_cases hi : i = 0 <;> simp [hi]

@[simp] theorem childIds_sealed (t : Tree) (i : NodeId) : t.sealed.childIds i = t.childIds i := rfl

@[simp] theorem childIds_setAttribute (t : Tree) (id : NodeId) (name : String) (a : Attribute)
    (i : NodeId) : (t.setAttribute id name a).childIds i = t.childIds i := by
  rw [childIds, childIds, get?_setAttribute]
  cases t.get? i with
  | none => rfl
  | some n => by_cases hi : i = id <;> simp [hi]

theorem childIds_addChild {t : Tree} {parent : NodeId} (hparent : parent < t.size)
    (kind tag : String) (fromList : Bool) (i : NodeId) :
    (t.addChild parent kind tag fromList).childIds i =
      if i = parent then t.childIds parent ++ [t.size] else t.childIds i := by
  rw [childIds, get?_addChild]
  by_cases hnew : i = t.size
  · have hne : t.size ≠ parent := (Nat.ne_of_lt hparent).symm
    subst hnew
    simp [hne, childIds_eq_nil (Nat.le_refl t.size)]
  · by_cases hi : i = parent
    · subst hi
      obtain ⟨n, hn⟩ := exists_get? hparent
      simp [hnew, hn, childIds_eq_of_get? hn]
    · rw [if_neg hnew, if_neg hi, childIds]
      cases t.get? i with
      | none => rfl
      | some n => simp [hi]

/-! ### Growth and what it keeps -/

/-- The trees that grow from a lone root. -/
inductive Grown : Tree → Prop
  | ofRoot (kind : String) : Grown (ofRoot kind)
  | addChild {t : Tree} {parent : NodeId} (h : Grown t) (hparent : parent < t.size)
      (kind tag : String) (fromList : Bool) : Grown (t.addChild parent kind tag fromList)
  | setAttribute {t : Tree} (h : Grown t) (id : NodeId) (name : String) (a : Attribute) :
      Grown (t.setAttribute id name a)
  | sealed {t : Tree} (h : Grown t) : Grown t.sealed

structure Consistent (t : Tree) : Prop where
  id_eq {i : NodeId} {n : Node} : t.get? i = some n → n.id = i
  root_alone {n : Node} : t.get? rootId = some n → n.parent = none ∧ n.tag = none
  parent_lt {i : NodeId} {n : Node} : t.get? i = some n → 0 < i →
    ∃ p < i, n.parent = some p
  mem_childIds {p c : NodeId} :
    c ∈ t.childIds p ↔ ∃ n, t.get? c = some n ∧ n.parent = some p
  sorted (p : NodeId) : (t.childIds p).Pairwise (· < ·)

namespace Consistent

theorem child_lt_size {t : Tree} (h : t.Consistent) {p c : NodeId} (hc : c ∈ t.childIds p) :
    c < t.size := by
  obtain ⟨n, hn, -⟩ := h.mem_childIds.mp hc
  exact lt_size_of_get? hn

theorem lt_child {t : Tree} (h : t.Consistent) {p c : NodeId} (hc : c ∈ t.childIds p) :
    p < c := by
  obtain ⟨n, hn, hp⟩ := h.mem_childIds.mp hc
  rcases Nat.eq_zero_or_pos c with rfl | hpos
  · rw [(h.root_alone hn).1] at hp
    contradiction
  · obtain ⟨q, hq, hparent⟩ := h.parent_lt hn hpos
    rw [hparent, Option.some.injEq] at hp
    exact hp ▸ hq

theorem parent_unique {t : Tree} (h : t.Consistent) {p q c : NodeId}
    (hp : c ∈ t.childIds p) (hq : c ∈ t.childIds q) : p = q := by
  obtain ⟨n, hn, hnp⟩ := h.mem_childIds.mp hp
  obtain ⟨m, hm, hmq⟩ := h.mem_childIds.mp hq
  rw [hn, Option.some.injEq] at hm
  subst hm
  rw [hnp, Option.some.injEq] at hmq
  exact hmq

theorem ofRoot (kind : String) : (ofRoot kind).Consistent where
  id_eq {i n} h := by
    rw [get?_ofRoot, Option.ite_none_right_eq_some, Option.some.injEq] at h
    obtain ⟨rfl, rfl⟩ := h
    rfl
  root_alone {n} h := by
    rw [get?_ofRoot, Option.ite_none_right_eq_some, Option.some.injEq] at h
    obtain ⟨-, rfl⟩ := h
    exact ⟨rfl, rfl⟩
  parent_lt {i n} h hpos := by
    rw [get?_ofRoot, if_neg (Nat.ne_of_gt hpos)] at h
    contradiction
  mem_childIds {p c} := by
    rw [childIds_ofRoot, get?_ofRoot]
    by_cases hc : c = 0 <;> simp [hc]
  sorted p := by simp

theorem setAttribute {t : Tree} (h : t.Consistent) (id : NodeId) (name : String) (a : Attribute) :
    (t.setAttribute id name a).Consistent := by
  have old {i : NodeId} {n : Node} (hn : (t.setAttribute id name a).get? i = some n) :
      ∃ m, t.get? i = some m ∧ n.id = m.id ∧ n.parent = m.parent ∧ n.tag = m.tag := by
    rw [get?_setAttribute, Option.map_eq_some_iff] at hn
    obtain ⟨m, hm, rfl⟩ := hn
    refine ⟨m, hm, ?_⟩
    split <;> exact ⟨rfl, rfl, rfl⟩
  refine ⟨?_, ?_, ?_, ?_, ?_⟩
  · intro i n hn
    obtain ⟨m, hm, hid, -, -⟩ := old hn
    exact hid.trans (h.id_eq hm)
  · intro n hn
    obtain ⟨m, hm, -, hparent, htag⟩ := old hn
    rw [hparent, htag]
    exact h.root_alone hm
  · intro i n hn hpos
    obtain ⟨m, hm, -, hparent, -⟩ := old hn
    rw [hparent]
    exact h.parent_lt hm hpos
  · intro p c
    rw [childIds_setAttribute, h.mem_childIds, get?_setAttribute]
    cases t.get? c with
    | none => simp
    | some m => by_cases hc : c = id <;> simp [hc]
  · intro p
    rw [childIds_setAttribute]
    exact h.sorted p

theorem addChild {t : Tree} (h : t.Consistent) {parent : NodeId} (hparent : parent < t.size)
    (kind tag : String) (fromList : Bool) : (t.addChild parent kind tag fromList).Consistent := by
  have old {i : NodeId} {n : Node} (hi : i ≠ t.size)
      (hn : (t.addChild parent kind tag fromList).get? i = some n) :
      ∃ m, t.get? i = some m ∧ n.id = m.id ∧ n.parent = m.parent ∧ n.tag = m.tag := by
    rw [get?_addChild, if_neg hi, Option.map_eq_some_iff] at hn
    obtain ⟨m, hm, rfl⟩ := hn
    refine ⟨m, hm, ?_⟩
    split <;> exact ⟨rfl, rfl, rfl⟩
  refine ⟨?_, ?_, ?_, ?_, ?_⟩
  · intro i n hn
    by_cases hi : i = t.size
    · rw [get?_addChild, if_pos hi, Option.some.injEq] at hn
      subst hn
      exact hi.symm
    · obtain ⟨m, hm, hid, -, -⟩ := old hi hn
      exact hid.trans (h.id_eq hm)
  · intro n hn
    obtain ⟨m, hm, -, hmparent, htag⟩ := old (Nat.ne_of_lt t.nonempty) hn
    rw [hmparent, htag]
    exact h.root_alone hm
  · intro i n hn hpos
    by_cases hi : i = t.size
    · rw [get?_addChild, if_pos hi, Option.some.injEq] at hn
      subst hn
      exact ⟨parent, hi ▸ hparent, rfl⟩
    · obtain ⟨m, hm, -, hmparent, -⟩ := old hi hn
      rw [hmparent]
      exact h.parent_lt hm hpos
  · intro p c
    rw [childIds_addChild hparent, get?_addChild]
    by_cases hc : c = t.size
    · -- the new node is listed by its parent and by no other node
      have hfresh (q : NodeId) : t.size ∉ t.childIds q := fun hq =>
        Nat.lt_irrefl _ (h.child_lt_size hq)
      subst hc
      by_cases hp : p = parent
      · simp [hp]
      · simp [hp, hfresh p, Ne.symm hp]
    · rw [if_neg hc]
      have hold : c ∈ (if p = parent then t.childIds parent ++ [t.size] else t.childIds p) ↔
          c ∈ t.childIds p := by
        by_cases hp : p = parent <;> simp [hp, hc]
      rw [hold, h.mem_childIds]
      cases t.get? c with
      | none => simp
      | some m => by_cases hcp : c = parent <;> simp [hcp]
  · intro p
    rw [childIds_addChild hparent]
    split
    · rw [List.pairwise_append]
      refine ⟨h.sorted parent, List.pairwise_singleton _ _, ?_⟩
      intro c hc d hd
      rw [List.mem_singleton.mp hd]
      exact h.child_lt_size hc
    · exact h.sorted p

theorem sealed {t : Tree} (h : t.Consistent) : t.sealed.Consistent :=
  ⟨h.id_eq, h.root_alone, h.parent_lt, h.mem_childIds, h.sorted⟩

end Consistent

/-- Every growing tree is consistent. -/
theorem Grown.consistent {t : Tree} (h : t.Grown) : t.Consistent := by
  induction h with
  | ofRoot kind => exact .ofRoot kind
  | addChild _ hparent kind tag fromList ih => exact ih.addChild hparent kind tag fromList
  | setAttribute _ id name a ih => exact ih.setAttribute id name a
  | sealed _ ih => exact ih.sealed

end ScriptFeatures.Tree
