import ScriptFeatures.Proofs.Tree.Subtree
import ScriptFeatures.Proofs.Phrase.Basic

/-!
Where a tree keeps phrases. `Tree.Laid` says that the nodes of some phrases,
with all that is below them, fill a stretch of the array in pre-order. Planting
members under a node changes that node alone among the nodes there were, and
lays the phrases that the members hold behind them (`Tree.Extends`). So a tree
built from a program holds the program's phrase and nothing else.
-/

namespace ScriptFeatures

open Json Growth

namespace Tree

/-- Some nodes, starting at an identifier and with all that is below them
ending before another, are those of some phrases. -/
inductive Laid (t : Tree) : NodeId → List NodeId → List Phrase → NodeId → Prop
  | nil (a : NodeId) : Laid t a [] [] a
  | cons {a b c : NodeId} {n : Node} {ids : List NodeId} {p : Phrase} {ps : List Phrase}
      (hn : t.get? a = some n) (hkind : n.kind = p.kind) (hattributes : n.attributes = p.attributes)
      (below : Laid t (a + 1) n.children.toList p.parts b) (rest : Laid t b ids ps c) :
      Laid t a (a :: ids) (p :: ps) c

namespace Laid

theorem le {t : Tree} {a c : NodeId} {ids : List NodeId} {ps : List Phrase}
    (h : t.Laid a ids ps c) : a ≤ c := by
  induction h with
  | nil => exact Nat.le_refl _
  | cons _ _ _ _ _ ihbelow ihrest =>
    exact Nat.le_trans (Nat.le_succ _) (Nat.le_trans ihbelow ihrest)

theorem append {t : Tree} {a b c : NodeId} {ids ids' : List NodeId} {ps ps' : List Phrase}
    (h : t.Laid a ids ps b) (h' : t.Laid b ids' ps' c) :
    t.Laid a (ids ++ ids') (ps ++ ps') c := by
  induction h with
  | nil => exact h'
  | cons hn hkind hattributes below _ _ ihrest =>
    exact .cons hn hkind hattributes below (ihrest h')

theorem congr {t t' : Tree} {a c : NodeId} {ids : List NodeId} {ps : List Phrase}
    (h : t.Laid a ids ps c) (hsame : ∀ i, a ≤ i → i < c → t'.get? i = t.get? i) :
    t'.Laid a ids ps c := by
  induction h with
  | nil a => exact .nil a
  | cons hn hkind hattributes below rest ihbelow ihrest =>
    have hlt := Nat.lt_of_lt_of_le (Nat.lt_succ_self _) below.le
    refine .cons ?_ hkind hattributes (ihbelow fun i hi hlt' => ?_) (ihrest fun i hi hlt' => ?_)
    · rw [hsame _ (Nat.le_refl _) (Nat.lt_of_lt_of_le hlt rest.le)]
      exact hn
    · exact hsame i (Nat.le_of_succ_le hi) (Nat.lt_of_lt_of_le hlt' rest.le)
    · exact hsame i (Nat.le_trans (Nat.le_of_lt hlt) hi) hlt'

end Laid

/-! ### Planting -/

/-- A tree with more children and attributes for one of its nodes. Of the
nodes there were no other has changed; the new ones are those of some phrases,
with the new children at their head. -/
structure Extends (t t' : Tree) (node : NodeId) (keep : Attributes → Attributes)
    (ids : List NodeId) (ps : List Phrase) : Prop where
  grown : t.Grown → t'.Grown
  kept : ∀ i < t.size, t'.get? i = (t.get? i).map fun n =>
    if i = node then
      { n with children := n.children ++ ids.toArray, attributes := keep n.attributes }
    else n
  laid : t'.Laid t.size ids ps t'.size

namespace Extends

theorem refl (t : Tree) (node : NodeId) : t.Extends t node id [] [] where
  grown h := h
  kept i _ := by
    cases t.get? i <;> simp
  laid := .nil _

theorem setAttribute (t : Tree) (node : NodeId) (name : String) (a : Attribute) :
    t.Extends (t.setAttribute node name a) node (·.insert name a) [] [] where
  grown h := h.setAttribute node name a
  kept i _ := by
    rw [get?_setAttribute]
    simp
  laid := by
    rw [size_setAttribute]
    exact .nil _

theorem size_le {t t' : Tree} {node : NodeId} {keep : Attributes → Attributes}
    {ids : List NodeId} {ps : List Phrase} (h : t.Extends t' node keep ids ps) :
    t.size ≤ t'.size :=
  h.laid.le

theorem trans {t t' t'' : Tree} {node : NodeId} {keep keep' : Attributes → Attributes}
    {ids ids' : List NodeId} {ps ps' : List Phrase} (hnode : node < t.size)
    (h : t.Extends t' node keep ids ps) (h' : t'.Extends t'' node keep' ids' ps') :
    t.Extends t'' node (keep' ∘ keep) (ids ++ ids') (ps ++ ps') where
  grown := h'.grown ∘ h.grown
  kept i hi := by
    rw [h'.kept i (Nat.lt_of_lt_of_le hi h.size_le), h.kept i hi, Option.map_map]
    congr 1
    funext n
    by_cases heq : i = node <;> simp [heq]
  laid := by
    -- the first stretch lies behind `node`, the only node that changes after it is laid
    refine (h.laid.congr fun i hi hlt => ?_).append h'.laid
    have hne : i ≠ node := fun heq => Nat.not_lt_of_le hi (heq ▸ hnode)
    rw [h'.kept i hlt]
    simp [hne]

theorem child {t t' : Tree} {node : NodeId} {p : Phrase} {tag : String} {fromList : Bool}
    {keep : Attributes → Attributes} {ids : List NodeId} (hnode : node < t.size)
    (h : (t.addChild node p.kind tag fromList).Extends t' t.size keep ids p.parts)
    (hkeep : keep [] = p.attributes) : t.Extends t' node id [t.size] [p] where
  grown hgrown := h.grown (hgrown.addChild hnode p.kind tag fromList)
  kept i hi := by
    have hne : i ≠ t.size := Nat.ne_of_lt hi
    rw [h.kept i (by rw [size_addChild]; exact Nat.lt_succ_of_lt hi), get?_addChild, if_neg hne,
      Option.map_map]
    congr 1
    funext n
    simp [hne]
  laid := by
    -- the child is the first of the new nodes, and its own new nodes follow it
    have hself := h.kept t.size (by rw [size_addChild]; exact Nat.lt_succ_self _)
    rw [get?_addChild, if_pos rfl, Option.map_some, if_pos rfl] at hself
    have hlaid := h.laid
    rw [size_addChild] at hlaid
    refine .cons hself rfl hkeep ?_ (.nil _)
    simpa using hlaid

end Extends

end Tree

namespace Growth

open ScriptFeatures.Tree

theorem keepAttribute_extends (t : Tree) (node : NodeId) (name : String) (v : Value) :
    t.Extends (keepAttribute t node name v) node (Phrase.keepMember · (name, v)) [] [] := by
  simp only [keepAttribute, Phrase.keepMember]
  cases memberAttribute? name v with
  | none => exact .refl t node
  | some a => exact .setAttribute t node name a

mutual

theorem plantMembers_extends {t : Tree} {node : NodeId} (hnode : node < t.size) (ms : Members) :
    ∃ ids, t.Extends (plantMembers t node ms) node (ms.foldl Phrase.keepMember) ids
      (ms.flatMap fun m => Phrase.ofMember m.1 m.2) := by
  cases ms with
  | nil => exact ⟨[], .refl t node⟩
  | cons m ms =>
    obtain ⟨name, v⟩ := m
    have hkeep := keepAttribute_extends t node name v
    have hnode' := Nat.lt_of_lt_of_le hnode hkeep.size_le
    rw [plantMembers, List.flatMap_cons]
    by_cases hleaf : name ∈ leafNames
    · obtain ⟨ids, hrest⟩ := plantMembers_extends hnode' ms
      refine ⟨ids, ?_⟩
      simp only [hleaf, if_true, Phrase.ofMember]
      exact hkeep.trans hnode hrest
    · obtain ⟨ids, hvalue⟩ := plantValue_extends hnode' name false v
      obtain ⟨ids', hrest⟩ := plantMembers_extends
        (Nat.lt_of_lt_of_le hnode' hvalue.size_le) ms
      refine ⟨ids ++ ids', ?_⟩
      simp only [hleaf, if_false, Phrase.ofMember]
      exact hkeep.trans hnode (hvalue.trans hnode' hrest)

theorem plantValue_extends {t : Tree} {node : NodeId} (hnode : node < t.size) (name : String)
    (fromList : Bool) (v : Value) :
    ∃ ids, t.Extends (plantValue t node name fromList v) node id ids
      (if fromList then (Phrase.ofValue? v).toList else Phrase.heldBy v) := by
  cases v with
  | object ms =>
    have hheld : (if fromList then (Phrase.ofValue? (.object ms)).toList
        else Phrase.heldBy (.object ms)) = (Phrase.ofValue? (.object ms)).toList := by
      cases fromList <;> rfl
    rw [hheld, plantValue, Phrase.ofValue?]
    cases nodeKind? ms with
    | none => exact ⟨[], .refl t node⟩
    | some kind =>
      have hnew : t.size < (t.addChild node kind name fromList).size := by
        rw [size_addChild]
        exact Nat.lt_succ_self _
      obtain ⟨ids, hms⟩ := plantMembers_extends hnew ms
      have hchild : t.Extends (plantMembers (t.addChild node kind name fromList) t.nextId ms)
          node id [t.size] [⟨kind, ms⟩] := .child hnode hms rfl
      exact ⟨[t.size], hchild⟩
  | array items =>
    cases fromList with
    | true => exact ⟨[], .refl t node⟩
    | false => exact plantItems_extends hnode name items
  | null | bool _ | number _ | string _ =>
    cases fromList <;> exact ⟨[], .refl t node⟩

theorem plantItems_extends {t : Tree} {node : NodeId} (hnode : node < t.size) (name : String)
    (items : List Value) :
    ∃ ids, t.Extends (plantItems t node name items) node id ids
      (items.filterMap Phrase.ofValue?) := by
  cases items with
  | nil => exact ⟨[], .refl t node⟩
  | cons v items =>
    obtain ⟨ids, hvalue⟩ := plantValue_extends hnode name true v
    obtain ⟨ids', hrest⟩ := plantItems_extends
      (Nat.lt_of_lt_of_le hnode hvalue.size_le) name items
    refine ⟨ids ++ ids', ?_⟩
    have hheld : (v :: items).filterMap Phrase.ofValue? =
        (Phrase.ofValue? v).toList ++ items.filterMap Phrase.ofValue? := by
      rw [List.filterMap_cons]
      cases Phrase.ofValue? v <;> rfl
    rw [hheld]
    exact hvalue.trans hnode hrest

end

/-- The tree planted from a root holds the phrase of the root. -/
theorem plantMembers_ofRoot (kind : String) (ms : Members) :
    (plantMembers (ofRoot kind) rootId ms).Grown ∧
      (plantMembers (ofRoot kind) rootId ms).Laid rootId [rootId] [⟨kind, ms⟩]
        (plantMembers (ofRoot kind) rootId ms).size := by
  have hnode : rootId < (ofRoot kind).size := Nat.zero_lt_one
  obtain ⟨ids, h⟩ := plantMembers_extends hnode ms
  refine ⟨h.grown (.ofRoot kind), ?_⟩
  have hlone : (ofRoot kind).get? rootId = some ⟨0, kind, none, false, none, #[], []⟩ := rfl
  have hroot := h.kept rootId hnode
  rw [hlone, Option.map_some, if_pos rfl] at hroot
  refine .cons hroot rfl rfl ?_ (.nil _)
  change Tree.Laid _ _ (#[] ++ ids.toArray).toList _ _
  rw [Array.toList_append, List.nil_append]
  exact h.laid

end Growth

end ScriptFeatures
