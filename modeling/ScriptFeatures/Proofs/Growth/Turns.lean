import ScriptFeatures.Proofs.Phrase.Extraction
import ScriptFeatures.Proofs.Phrase.Numbering

/-!
How long the loop that grows a tree runs, and how many nodes wait on its stack.
A turn of the loop advances the innermost node under way. It ends this node, or
it takes a member of it, or it adds a node, so that what is left of the document
and what there is of the tree balance (`Growth.Turns.balance`): the number of
turns follows from the nodes and members alone. The nodes on the stack lie one
below the other (`Growth.Nested`), so no more of them wait than the nodes of one
branch of the tree.
-/

namespace ScriptFeatures

open Json Growth

def Phrase.fields (p : Phrase) : Members := p.preorder.flatMap (·.members)

theorem Phrase.length_fields (p : Phrase) :
    p.fields.length = p.members.length + (p.parts.flatMap fields).length := by
  have hbelow : (p.parts.flatMap preorder).flatMap (·.members) = p.parts.flatMap fields :=
    List.flatMap_assoc
  rw [fields, preorder_eq, List.flatMap_cons, List.length_append, hbelow]

/-! ### Nodes that are in no list -/

namespace Tree

/-- Whether a node is the value of a member by itself. -/
def isSingle (t : Tree) (id : NodeId) : Bool :=
  (t.get? id).any fun n => id != rootId && !n.fromList

/-- The nodes apart from the root that are in no list. -/
def singles (t : Tree) : List NodeId := (List.range t.size).filter t.isSingle

@[simp] theorem singles_sealed (t : Tree) : t.sealed.singles = t.singles := rfl

theorem singles_setAttribute (t : Tree) (id : NodeId) (name : String) (a : Attribute) :
    (t.setAttribute id name a).singles = t.singles := by
  have hsingle : (t.setAttribute id name a).isSingle = t.isSingle := by
    funext i
    rw [isSingle, isSingle, get?_setAttribute]
    cases t.get? i with
    | none => rfl
    | some n => by_cases hi : i = id <;> simp [hi]
  rw [singles, singles, size_setAttribute, hsingle]

theorem length_singles_addChild (t : Tree) (parent : NodeId) (kind tag : String)
    (fromList : Bool) :
    (t.addChild parent kind tag fromList).singles.length =
      t.singles.length + if fromList then 0 else 1 := by
  have hold : ∀ i ∈ List.range t.size,
      (t.addChild parent kind tag fromList).isSingle i = t.isSingle i := by
    intro i hi
    have hne : i ≠ t.size := Nat.ne_of_lt (List.mem_range.mp hi)
    rw [isSingle, isSingle, get?_addChild, if_neg hne]
    cases t.get? i with
    | none => rfl
    | some n => by_cases hparent : i = parent <;> simp [hparent]
  have hnew : (t.addChild parent kind tag fromList).isSingle t.size = !fromList := by
    have hroot : t.size ≠ rootId := Nat.ne_of_gt t.nonempty
    rw [isSingle, get?_addChild, if_pos rfl]
    simp [hroot]
  rw [singles, singles, size_addChild, List.range_succ, List.filter_append,
    List.filter_congr hold, List.length_append, List.filter_singleton, hnew]
  cases fromList <;> rfl

theorem singles_of_isFresh {t : Tree} (h : t.isFresh = true) : t.singles = [] := by
  have hroot : t.isSingle rootId = false := by
    rw [isSingle]
    cases t.get? rootId <;> simp
  rw [singles, size_of_isFresh h, List.range_one, List.filter_singleton]
  rw [show t.isSingle 0 = false from hroot]
  rfl

/-! ### Branches -/

/-- The nodes from one node down to a node without children. -/
inductive Branch (t : Tree) : NodeId → List NodeId → Prop
  | leaf {id : NodeId} (h : t.childIds id = []) : Branch t id [id]
  | node {id child : NodeId} {path : List NodeId} (hchild : child ∈ t.childIds id)
      (h : Branch t child path) : Branch t id (id :: path)

theorem Branch.length_pos {t : Tree} {id : NodeId} {path : List NodeId} (h : t.Branch id path) :
    0 < path.length := by
  cases h <;> exact Nat.succ_pos _

theorem Consistent.exists_branch {t : Tree} (h : t.Consistent) (id : NodeId) :
    ∃ path, t.Branch id path := by
  induction id using h.induction_on_children with
  | step id ih =>
    cases hchildren : t.childIds id with
    | nil => exact ⟨[id], .leaf hchildren⟩
    | cons child children =>
      have hchild : child ∈ t.childIds id := hchildren ▸ List.mem_cons_self
      obtain ⟨path, hpath⟩ := ih child hchild
      exact ⟨id :: path, .node hchild hpath⟩

end Tree

namespace Growth

/-! ### Turns of the loop -/

/-- So many turns of the loop lead from one state to another. In a turn the
innermost node under way is advanced; a state is a tree with the nodes that are
under way in it. -/
inductive Turns : ℕ → Tree × List Frame → Tree × List Frame → Prop
  | refl (s : Tree × List Frame) : Turns 0 s s
  | advance {n : ℕ} {t : Tree} {f : Frame} {rest : List Frame} {s : Tree × List Frame}
      (h : Turns n ((f.advance t).1, (f.advance t).2.resume rest) s) :
      Turns (n + 1) (t, f :: rest) s

namespace Turns

variable {n m : ℕ} {s s' : Tree × List Frame}

/-- The loop goes on to the same tree from every state that it passes through. -/
theorem grow_eq (h : Turns n s s') : grow s.1 s.2 = grow s'.1 s'.2 := by
  induction h with
  | refl s => rfl
  | advance _ ih => rw [grow, ih]

/-- The loop stops once, when no node is under way. -/
theorem unique {t t' : Tree} (h : Turns n s (t, [])) (h' : Turns m s (t', [])) :
    n = m ∧ t = t' := by
  induction n generalizing m s with
  | zero =>
    cases h
    cases h'
    exact ⟨rfl, rfl⟩
  | succ n ih =>
    cases h with
    | advance hmore =>
      cases h' with
      | advance hmore' => exact (ih hmore hmore').imp (congrArg (· + 1)) id

end Turns

theorem exists_turns (t : Tree) (stack : List Frame) :
    ∃ n, Turns n (t, stack) (grow t stack, []) := by
  induction t, stack using grow.induct with
  | case1 t => exact ⟨0, by rw [grow]; exact .refl _⟩
  | case2 t f rest r ih =>
    obtain ⟨n, hn⟩ := ih
    rw [grow]
    exact ⟨n + 1, .advance hn⟩

/-! ### What a turn does -/

/-- The phrases that a frame has still to plant: those in the rest of its list,
then those in the rest of its members. -/
def Frame.phrases (f : Frame) : List Phrase :=
  (f.list.elim [] fun walked => walked.2.filterMap Phrase.ofValue?) ++
    f.members.flatMap fun m => Phrase.ofMember m.1 m.2

def Frame.fields (f : Frame) : Members := f.members ++ f.phrases.flatMap Phrase.fields

/-- A step ends a node that has nothing left, or takes a member of it, which
leaves the shape of the tree as it is, or adds a child, which was the value of a
member unless it comes from a list. -/
inductive Frame.Stepped (t : Tree) (f : Frame) : Tree × Step → Prop
  | done (hfields : f.fields.length = 0) : Stepped t f (t, .done)
  | more {u : Tree} {f' : Frame} (htree : u = t ∨ ∃ name a, u = t.setAttribute f.node name a)
      (hnode : f'.node = f.node) (hfields : f.fields.length = f'.fields.length + 1) :
      Stepped t f (u, .more f')
  | descend {kind tag : String} {fromList : Bool} {f' child : Frame} (hnode : f'.node = f.node)
      (hchild : child.node = t.size)
      (hfields : f.fields.length = f'.fields.length + child.fields.length +
        if fromList then 0 else 1) :
      Stepped t f (t.addChild f.node kind tag fromList, .descend f' child)

theorem Frame.Stepped.congr {t : Tree} {f g : Frame} {r : Tree × Step} (h : g.Stepped t r)
    (hnode : f.node = g.node) (hfields : f.fields.length = g.fields.length) : f.Stepped t r := by
  cases h with
  | done hnone => exact .done (hfields.trans hnone)
  | more htree hnode' htaken =>
    rw [← hnode] at htree hnode'
    exact .more htree hnode' (hfields.trans htaken)
  | descend hnode' hchild htaken =>
    rw [← hnode] at hnode' ⊢
    exact .descend hnode' hchild (hfields.trans htaken)

theorem Frame.length_fields_none (node : NodeId) (ms : Members) :
    (⟨node, none, ms⟩ : Frame).fields.length =
      ms.length + ((ms.flatMap fun m => Phrase.ofMember m.1 m.2).flatMap Phrase.fields).length := by
  rw [fields, List.length_append]
  rfl

theorem Frame.length_fields_some (node : NodeId) (name : String) (items : List Value)
    (ms : Members) :
    (⟨node, some (name, items), ms⟩ : Frame).fields.length =
      ((items.filterMap Phrase.ofValue?).flatMap Phrase.fields).length +
        (⟨node, none, ms⟩ : Frame).fields.length := by
  rw [length_fields_none, fields, phrases, Option.elim_some, List.flatMap_append,
    List.length_append, List.length_append]
  exact Nat.add_left_comm _ _ _

/-- What is left of a node that has just been added is what its phrase has. -/
theorem length_fields_child (id : NodeId) (kind : String) (ms : Members) :
    (⟨id, none, ms⟩ : Frame).fields.length = (⟨kind, ms⟩ : Phrase).fields.length := by
  rw [Phrase.length_fields, Frame.length_fields_none]
  rfl

theorem stepped_member (t : Tree) (node : NodeId) (name : String) (v : Value) (rest : Members) :
    Frame.Stepped t ⟨node, none, (name, v) :: rest⟩ (member t node name v rest) := by
  have htaken : (⟨node, none, (name, v) :: rest⟩ : Frame).fields.length =
      (⟨node, none, rest⟩ : Frame).fields.length +
        ((Phrase.ofMember name v).flatMap Phrase.fields).length + 1 := by
    simp only [Frame.length_fields_none, List.flatMap_cons, List.flatMap_append,
      List.length_append, List.length_cons]
    omega
  by_cases hleaf : name ∈ leafNames
  · have hnone : Phrase.ofMember name v = [] := if_pos hleaf
    rw [hnone] at htaken
    simp only [leafNames, List.mem_cons, List.not_mem_nil, or_false] at hleaf
    rcases hleaf with rfl | rfl | rfl
    · exact .more (.inl rfl) rfl htaken
    · simp only [member]
      cases Attribute.ofRange? v with
      | none => exact .more (.inl rfl) rfl htaken
      | some a => exact .more (.inr ⟨_, a, rfl⟩) rfl htaken
    · exact .more (.inr ⟨_, _, rfl⟩) rfl htaken
  · have hheld : Phrase.ofMember name v = Phrase.heldBy v := if_neg hleaf
    rw [hheld] at htaken
    simp only [leafNames, List.mem_cons, List.not_mem_nil, or_false, not_or] at hleaf
    obtain ⟨htype, hrange, hregex⟩ := hleaf
    unfold member
    split
    · exact absurd rfl htype
    · exact absurd rfl hrange
    · exact absurd rfl hregex
    · cases v with
      | object ms =>
        have hphrase : Phrase.heldBy (.object ms) = ((nodeKind? ms).map (⟨·, ms⟩)).toList := rfl
        rw [hphrase] at htaken
        cases hkind : nodeKind? ms with
        | none =>
          rw [hkind, Option.map_none, Option.toList_none, List.flatMap_nil] at htaken
          simp only [hkind]
          exact .more (.inl rfl) rfl htaken
        | some kind =>
          have hchild := length_fields_child t.nextId kind ms
          rw [hkind, Option.map_some, Option.toList_some, List.flatMap_singleton, ← hchild]
            at htaken
          simp only [hkind]
          refine .descend rfl rfl ?_
          rw [htaken, if_neg Bool.false_ne_true]
      | array items =>
        cases items with
        | nil => exact .more (.inr ⟨_, _, rfl⟩) rfl htaken
        | cons item items =>
          refine .more (.inl rfl) rfl ?_
          rw [htaken, Frame.length_fields_some, Phrase.heldBy]
          omega
      | null | bool _ | number _ | string _ => exact .more (.inr ⟨_, _, rfl⟩) rfl htaken

theorem stepped_advanceMembers (t : Tree) (node : NodeId) (ms : Members) :
    Frame.Stepped t ⟨node, none, ms⟩ (advanceMembers t node ms) := by
  cases ms with
  | nil => exact .done rfl
  | cons entry rest => exact stepped_member t node entry.1 entry.2 rest

theorem filterMap_ofValue?_nextNode? (items : List Value) :
    items.filterMap Phrase.ofValue? =
      match nextNode? items with
      | some (kind, ms, rest) => ⟨kind, ms⟩ :: rest.filterMap Phrase.ofValue?
      | none => [] := by
  induction items with
  | nil => rfl
  | cons v items ih =>
    cases v with
    | object ms =>
      rw [nextNode?, List.filterMap_cons, Phrase.ofValue?]
      cases nodeKind? ms with
      | none => exact ih
      | some kind => rfl
    | null | bool _ | number _ | string _ | array _ => exact ih

theorem Frame.stepped_advance (t : Tree) (f : Frame) : f.Stepped t (f.advance t) := by
  obtain ⟨node, list, members⟩ := f
  cases list with
  | none => exact stepped_advanceMembers t node members
  | some entry =>
    obtain ⟨name, items⟩ := entry
    have hleft := length_fields_some node name items members
    rw [filterMap_ofValue?_nextNode?] at hleft
    simp only [Frame.advance]
    cases hnext : nextNode? items with
    | none =>
      -- what is left of the list holds no node, so the frame is like one without a list
      rw [hnext, List.flatMap_nil, List.length_nil, Nat.zero_add] at hleft
      exact (stepped_advanceMembers t node members).congr rfl hleft
    | some found =>
      obtain ⟨kind, ms, rest⟩ := found
      have hchild := length_fields_child t.nextId kind ms
      rw [hnext, List.flatMap_cons, List.length_append, ← hchild] at hleft
      refine .descend rfl rfl ?_
      rw [hleft, length_fields_some, if_pos rfl]
      omega

/-! ### The balance of a run -/

/-- What a turn takes from the document and from the stack it gives to the tree
or to the number of turns. -/
theorem balance_advance (t : Tree) (f : Frame) (rest : List Frame) :
    1 + (f.advance t).1.singles.length + ((f.advance t).2.resume rest).length +
          (((f.advance t).2.resume rest).flatMap Frame.fields).length + 2 * t.size =
        t.singles.length + (f :: rest).length + ((f :: rest).flatMap Frame.fields).length +
          2 * (f.advance t).1.size ∧
      (f.advance t).1.singles.length +
          (((f.advance t).2.resume rest).flatMap Frame.fields).length ≤
        t.singles.length + ((f :: rest).flatMap Frame.fields).length := by
  rw [List.flatMap_cons, List.length_append, List.length_cons]
  have hstep := f.stepped_advance t
  generalize f.advance t = r at hstep
  cases hstep with
  | done hfields =>
    simp only [Step.resume, hfields]
    omega
  | more htree _ hfields =>
    simp only [Step.resume, List.flatMap_cons, List.length_append, List.length_cons, hfields]
    rcases htree with rfl | ⟨name, a, rfl⟩
    · omega
    · rw [Tree.singles_setAttribute, Tree.size_setAttribute]
      omega
  | descend _ _ hfields =>
    simp only [Step.resume, List.flatMap_cons, List.length_append, List.length_cons, hfields,
      Tree.length_singles_addChild, Tree.size_addChild]
    omega

/-- So does a run, and a node that is in no list has used up a member. -/
theorem Turns.balance {n : ℕ} {s s' : Tree × List Frame} (h : Turns n s s') :
    n + s'.1.singles.length + s'.2.length + (s'.2.flatMap Frame.fields).length + 2 * s.1.size =
        s.1.singles.length + s.2.length + (s.2.flatMap Frame.fields).length + 2 * s'.1.size ∧
      s'.1.singles.length + (s'.2.flatMap Frame.fields).length ≤
        s.1.singles.length + (s.2.flatMap Frame.fields).length := by
  induction h with
  | refl s => omega
  | @advance n t f rest s _ ih =>
    have hturn := balance_advance t f rest
    dsimp only at ih ⊢
    omega

/-! ### The nodes on the stack -/

/-- The nodes under way lie one below the other, the outermost being the root. -/
inductive Nested (t : Tree) : List Frame → Prop
  | nil : Nested t []
  | root {f : Frame} (hnode : f.node = Tree.rootId) : Nested t [f]
  | cons {f g : Frame} {rest : List Frame} (hchild : f.node ∈ t.childIds g.node)
      (h : Nested t (g :: rest)) : Nested t (f :: g :: rest)

namespace Nested

variable {t u : Tree} {f : Frame} {rest : List Frame}

theorem tail (h : Nested t (f :: rest)) : Nested t rest := by
  cases h with
  | root _ => exact .nil
  | cons _ h => exact h

theorem replace (h : Nested t (f :: rest)) {f' : Frame} (hnode : f'.node = f.node) :
    Nested t (f' :: rest) := by
  cases h with
  | root hroot => exact .root (hnode.trans hroot)
  | cons hchild h => exact .cons (hnode ▸ hchild) h

theorem lt_size (h : Nested t (f :: rest)) (hc : t.Consistent) : f.node < t.size := by
  cases h with
  | root hroot => exact hroot ▸ t.nonempty
  | cons hchild _ => exact hc.child_lt_size hchild

theorem mono (h : Nested t rest) (hchildren : ∀ id, t.childIds id ⊆ u.childIds id) :
    Nested u rest := by
  induction h with
  | nil => exact .nil
  | root hroot => exact .root hroot
  | cons hchild _ ih => exact .cons (hchildren _ hchild) ih

/-- A branch that leads down from the innermost node goes on up to the root. -/
theorem exists_branch (h : Nested t (f :: rest)) {path : List NodeId}
    (hpath : t.Branch f.node path) :
    ∃ whole, t.Branch Tree.rootId whole ∧ whole.length = path.length + rest.length := by
  induction rest generalizing f path with
  | nil =>
    cases h with
    | root hroot => exact ⟨path, hroot ▸ hpath, rfl⟩
  | cons g rest ih =>
    cases h with
    | cons hchild h =>
      obtain ⟨whole, hwhole, hlength⟩ := ih h (.node hchild hpath)
      refine ⟨whole, hwhole, ?_⟩
      rw [hlength, List.length_cons, List.length_cons]
      omega

end Nested

theorem nested_advance {t : Tree} (ht : t.Grown) {f : Frame} {rest : List Frame}
    (h : Nested t (f :: rest)) :
    (f.advance t).1.Grown ∧ Nested (f.advance t).1 ((f.advance t).2.resume rest) ∧
      ∀ id, t.childIds id ⊆ (f.advance t).1.childIds id := by
  have hlt := h.lt_size ht.consistent
  have hstep := f.stepped_advance t
  generalize f.advance t = r at hstep
  cases hstep with
  | done _ => exact ⟨ht, h.tail, fun _ => List.Subset.refl _⟩
  | more htree hnode _ =>
    rcases htree with rfl | ⟨name, a, rfl⟩
    · exact ⟨ht, h.replace hnode, fun _ => List.Subset.refl _⟩
    · have hsame (id : NodeId) : t.childIds id ⊆ (t.setAttribute f.node name a).childIds id := by
        rw [Tree.childIds_setAttribute]
        exact List.Subset.refl _
      exact ⟨ht.setAttribute _ _ _, (h.replace hnode).mono hsame, hsame⟩
  | @descend kind tag fromList f' child hnode hchild _ =>
    have hmore (id : NodeId) :
        t.childIds id ⊆ (t.addChild f.node kind tag fromList).childIds id := by
      rw [Tree.childIds_addChild hlt]
      split
      · next hid => exact hid ▸ List.subset_append_left _ _
      · exact List.Subset.refl _
    refine ⟨ht.addChild hlt _ _ _, .cons ?_ ((h.replace hnode).mono hmore), hmore⟩
    rw [hchild, hnode, Tree.childIds_addChild hlt, if_pos rfl]
    exact List.mem_append_right _ (List.mem_singleton_self _)

theorem Turns.nested {n : ℕ} {s s' : Tree × List Frame} (h : Turns n s s') (ht : s.1.Grown)
    (hnested : Nested s.1 s.2) :
    s'.1.Grown ∧ Nested s'.1 s'.2 ∧ ∀ id, s.1.childIds id ⊆ s'.1.childIds id := by
  induction h with
  | refl s => exact ⟨ht, hnested, fun _ => List.Subset.refl _⟩
  | advance _ ih =>
    obtain ⟨hgrown, hnext, hmore⟩ := nested_advance ht hnested
    obtain ⟨hgrown', hnested', hmore'⟩ := ih hgrown hnext
    exact ⟨hgrown', hnested', fun id => List.Subset.trans (hmore id) (hmore' id)⟩

end Growth

namespace Tree

/-- The nodes of a tree that was planted from a lone root are as many as the
phrases that were planted. -/
theorem Grown.length_preorder {t : Tree} (h : t.Grown) (hfresh : t.isFresh = true) (p : Phrase) :
    p.preorder.length = (plantMembers t rootId p.members).size := by
  obtain ⟨ids, hplanted⟩ := plantMembers_extends t.nonempty p.members
  have hc := (hplanted.grown h).consistent
  have hlength := (hplanted.laid.stands hc).length_eq
  rw [hplanted.laid.flatMap_subtree hc, List.length_range', size_of_isFresh hfresh] at hlength
  have hparts : (p.parts.flatMap Phrase.preorder).length =
      (plantMembers t rootId p.members).size - 1 := hlength.symm
  have hpos := (plantMembers t rootId p.members).nonempty
  rw [Phrase.preorder_eq, List.length_cons, hparts]
  exact Nat.sub_add_cancel hpos

/-- Building from the object of a phrase on a lone root takes a number of turns
that the nodes and members fix: two for each node less one, and one for each
member of the objects that became nodes, except for the members whose value was
a node. In no state on the way are more nodes under way than there are on some
branch of the tree. -/
theorem Grown.build_turns {t : Tree} (h : t.Grown) (hfresh : t.isFresh = true) (p : Phrase) :
    ∃ u, t.build p.members = .ok u.sealed ∧
      p.preorder.length = u.size ∧ u.singles.length ≤ p.fields.length ∧
      (∀ n v, Turns n (t, [⟨rootId, none, p.members⟩]) (v, []) ↔
        n = (2 * u.size - 1) + (p.fields.length - u.singles.length) ∧ v = u) ∧
      ∀ n v stack, Turns n (t, [⟨rootId, none, p.members⟩]) (v, stack) →
        ∃ path, u.Branch rootId path ∧ stack.length ≤ path.length := by
  obtain ⟨n, hn⟩ := exists_turns t [⟨rootId, none, p.members⟩]
  obtain ⟨hbalance, hsingles⟩ := hn.balance
  have hfields : (⟨rootId, none, p.members⟩ : Frame).fields.length = p.fields.length :=
    length_fields_child rootId p.kind p.members
  simp only [singles_of_isFresh hfresh, size_of_isFresh hfresh, List.flatMap_cons,
    List.flatMap_nil, List.append_nil, List.length_nil, List.length_cons, hfields]
    at hbalance hsingles
  have hpos : 0 < (grow t [⟨rootId, none, p.members⟩]).size := Tree.nonempty _
  have hcost : n = (2 * (grow t [⟨rootId, none, p.members⟩]).size - 1) +
      (p.fields.length - (grow t [⟨rootId, none, p.members⟩]).singles.length) := by
    omega
  have hnested : Nested t [⟨rootId, none, p.members⟩] := .root rfl
  have hplanted := grow_singleton t ⟨rootId, none, p.members⟩
  refine ⟨grow t [⟨rootId, none, p.members⟩], ?_, ?_, ?_, ?_, ?_⟩
  · rw [build, expand, if_pos hfresh]
  · rw [hplanted]
    exact h.length_preorder hfresh p
  · omega
  · intro m v
    constructor
    · intro hm
      obtain ⟨rfl, rfl⟩ := hm.unique hn
      exact ⟨hcost, rfl⟩
    · rintro ⟨rfl, rfl⟩
      rw [← hcost]
      exact hn
  · intro m v stack hm
    obtain ⟨hgrown, hunder, -⟩ := hm.nested h hnested
    -- the rest of the run only adds children, so the nodes stay in line
    obtain ⟨k, hk⟩ := exists_turns v stack
    obtain ⟨hfinal, -, hmore⟩ := hk.nested hgrown hunder
    have hsame : grow t [⟨rootId, none, p.members⟩] = grow v stack := hm.grow_eq
    rw [hsame]
    cases stack with
    | nil =>
      obtain ⟨path, hpath⟩ := hfinal.consistent.exists_branch rootId
      exact ⟨path, hpath, Nat.zero_le _⟩
    | cons f rest =>
      obtain ⟨path, hpath⟩ := hfinal.consistent.exists_branch f.node
      obtain ⟨whole, hwhole, hlength⟩ := (hunder.mono hmore).exists_branch hpath
      refine ⟨whole, hwhole, ?_⟩
      have hpos := hpath.length_pos
      rw [hlength, List.length_cons]
      omega

def callPhrase : Phrase := .program "Program" callBody

theorem length_fields_callPhrase : callPhrase.fields.length = 12 := by
  simp [callPhrase, Phrase.program, callBody, Phrase.fields, Phrase.preorder_eq, Phrase.parts,
    Phrase.ofMember, leafNames, Phrase.heldBy, Phrase.ofValue?, nodeKind?, Members.get?,
    Value.string?, List.filterMap_cons]

/-- Seven nodes, of which the callee and the argument of the spread are in no
list, and twelve members. -/
theorem build_turns_callPhrase :
    markedRoot.Grown ∧ markedRoot.isFresh = true ∧ callPhrase.fields.length = 12 ∧
      callTree.size = 7 ∧ callTree.singles = [2, 4] ∧
      ∃ u, u.sealed = callTree ∧
        Turns 23 (markedRoot, [⟨rootId, none, callPhrase.members⟩]) (u, []) := by
  have hgrown : markedRoot.Grown := .setAttribute (.ofRoot _) _ _ _
  have hfresh : markedRoot.isFresh = true := by decide
  have hsize : callTree.size = 7 := by decide
  have hsingles : callTree.singles = [2, 4] := by decide
  have hbuild : markedRoot.build callPhrase.members = .ok callTree := by
    with_unfolding_all rfl
  obtain ⟨u, hu, -, -, hturns, -⟩ := hgrown.build_turns hfresh callPhrase
  have hsealed : u.sealed = callTree := Except.ok.inj (hu.symm.trans hbuild)
  refine ⟨hgrown, hfresh, length_fields_callPhrase, hsize, hsingles, u, hsealed, ?_⟩
  rw [← hsealed, size_sealed] at hsize
  rw [← hsealed, singles_sealed] at hsingles
  refine (hturns 23 u).mpr ⟨?_, rfl⟩
  rw [length_fields_callPhrase, hsize, hsingles]
  rfl

end Tree

end ScriptFeatures
