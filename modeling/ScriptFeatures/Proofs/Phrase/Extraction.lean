import Mathlib.Data.List.Forall2
import ScriptFeatures.Feature.Frequency
import ScriptFeatures.Proofs.Phrase.Laid

/-!
The features of a tree are those of the phrases it holds. Where phrases are
laid out, the walk visits their nodes in the pre-order of the phrases, and a
node's kind, attributes, first child and first identifier are those of its
phrase. So collecting the features of the nodes extracts the phrases
(`Tree.Laid.collect`), the error included: the kind that is looked up early,
of the first part of an expression statement, is the next one to be visited.
-/

namespace ScriptFeatures

open Json Growth

namespace Tree

/-- A node with the kind and the attributes of a phrase. -/
def Stands (t : Tree) (id : NodeId) (p : Phrase) : Prop :=
  ∃ n, t.get? id = some n ∧ n.kind = p.kind ∧ n.attributes = p.attributes

theorem Laid.stands {t : Tree} (hc : t.Consistent) {a c : NodeId} {ids : List NodeId}
    {ps : List Phrase} (h : t.Laid a ids ps c) :
    List.Forall₂ t.Stands (ids.flatMap t.subtree) (ps.flatMap Phrase.preorder) := by
  induction h with
  | nil => exact .nil
  | cons hn hkind hattributes _ _ ihbelow ihrest =>
    rw [List.flatMap_cons, List.flatMap_cons, hc.subtree_eq, Phrase.preorder_eq,
      childIds_eq_of_get? hn]
    exact List.rel_append (.cons ⟨_, hn, hkind, hattributes⟩ ihbelow) ihrest

def nameOf? (t : Tree) (id : NodeId) : Option String := (t.get? id).bind (·.text? "name")

theorem name_of_find? {t : Tree} {ids : List NodeId} {ps : List Phrase}
    (h : List.Forall₂ t.Stands ids ps) (kind : String) :
    (ids.find? (t.hasKind kind)).bind t.nameOf? =
      (ps.find? (·.kind == kind)).bind Phrase.keptName? := by
  induction h with
  | nil => rfl
  | @cons id p ids ps hstands _ ih =>
    obtain ⟨n, hn, hkind, hattributes⟩ := hstands
    have hsame : t.hasKind kind id = (p.kind == kind) := by
      simp only [hasKind, hn, hkind]
    rw [List.find?_cons, List.find?_cons, hsame]
    cases p.kind == kind with
    | false => exact ih
    | true =>
      simp only [Option.bind_some, nameOf?, hn, Node.text?, Node.attribute?, hattributes]
      rfl

/-- The phrases whose kinds are looked up for the feature of a phrase. -/
def lookedUp (p : Phrase) : List Phrase :=
  if p.kind = "ExpressionStatement" then p :: p.parts.take 1 else [p]

theorem lookedUp_eq_singleton {p : Phrase} {k : Classification} (hk : classify? p.kind = some k)
    (hne : k ≠ .informative .expressionStatement) : lookedUp p = [p] := by
  have hstatement : classify? "ExpressionStatement" = some (.informative .expressionStatement) :=
    rfl
  refine if_neg fun hes => hne ?_
  rw [hes, hstatement, Option.some.injEq] at hk
  exact hk.symm

theorem find?_lookedUp (p : Phrase) :
    (lookedUp p).find? Phrase.isUnclassified =
      if p.isUnclassified then some p else (lookedUp p).tail.find? Phrase.isUnclassified := by
  rw [lookedUp]
  cases hp : p.isUnclassified <;> by_cases hes : p.kind = "ExpressionStatement" <;>
    simp [hes, hp]

theorem exists_preorder_eq (p : Phrase) : ∃ ps, p.preorder = lookedUp p ++ ps := by
  rw [p.preorder_eq, lookedUp]
  split
  · cases p.parts with
    | nil => exact ⟨[], rfl⟩
    | cons q qs =>
      rw [List.flatMap_cons, q.preorder_eq]
      exact ⟨_, rfl⟩
  · exact ⟨_, rfl⟩

/-! ### One node

A node at `a` that stands for a phrase, the parts of the phrase laid out
behind it. -/

section

variable {t : Tree} {a b : NodeId} {n : Node} {p : Phrase}
  (hc : t.Consistent) (hn : t.get? a = some n) (hkind : n.kind = p.kind)
  (hattributes : n.attributes = p.attributes)
  (below : t.Laid (a + 1) n.children.toList p.parts b)

include hc hn below in
theorem firstChild?_kind : (t.firstChild? n.id).map (·.kind) = p.parts.head?.map (·.kind) := by
  rw [hc.id_eq hn, firstChild?, childIds_eq_of_get? hn]
  generalize n.children.toList = ids at below
  generalize p.parts = ps at below
  cases below with
  | nil => rfl
  | cons hm hkind _ _ _ => simp [hm, hkind]

include hattributes in
theorem literal_eq :
    n.literal.toOption.map (fun found => (⟨found.1.name, found.2⟩ : Feature)) =
      p.keptLiteral? := by
  simp only [Node.literal, Node.attribute?, hattributes, Phrase.keptLiteral?]
  cases (p.attributes.get? "value").bind Attribute.literal? with
  | some found => rfl
  | none => cases (p.attributes.get? "regex").bind Attribute.pattern? <;> rfl

include hc hn hkind below in
theorem isThisAccess_eq : t.isThisAccess n = p.isThisAccess := by
  have hany (o : Option Node) (o' : Option Phrase) (h : o.map (·.kind) = o'.map (·.kind)) :
      o.any (·.kind == "ThisExpression") = o'.any (·.kind == "ThisExpression") := by
    simpa [Option.any_map] using congrArg (Option.any (· == "ThisExpression")) h
  rw [isThisAccess, Phrase.isThisAccess, hkind, hany _ _ (firstChild?_kind hc hn below)]

include hc hn hkind below in
theorem namedFeature?_eq (c : Category) :
    t.namedFeature? n c (t.findDescendant? a "Identifier") =
      (p.firstIdentifier?.bind Phrase.keptName?).map fun s =>
        ⟨if p.isThisAccess then "This" else c.name, .string s⟩ := by
  have hname := name_of_find? (below.stands hc) "Identifier"
  rw [← childIds_eq_of_get? hn, ← hc.findDescendant?_eq] at hname
  rw [Phrase.firstIdentifier?, ← hname, namedFeature?, isThisAccess_eq hc hn hkind below]
  cases t.findDescendant? a "Identifier" with
  | none => rfl
  | some id =>
    cases hm : t.get? id with
    | none => simp [nameOf?, hm]
    | some m => cases hs : m.text? "name" <;> simp [nameOf?, hm, hs, Category.name]

include hc hn hkind below in
theorem isSuppressed_eq :
    t.isSuppressed n =
      match (lookedUp p).tail.find? Phrase.isUnclassified with
      | some q => .error (.unclassified q.kind)
      | none => .ok p.defersToPart := by
  have hfirst := firstChild?_kind hc hn below
  rw [isSuppressed, Phrase.defersToPart, lookedUp, hkind]
  by_cases hes : p.kind = "ExpressionStatement"
  · cases hparts : p.parts with
    | nil =>
      rw [hparts, List.head?_nil, Option.map_none, Option.map_eq_none_iff] at hfirst
      simp [hes, hfirst]
    | cons q qs =>
      rw [hparts, List.head?_cons, Option.map_some, Option.map_eq_some_iff] at hfirst
      obtain ⟨m, hm, hmkind⟩ := hfirst
      cases hq : classify? q.kind <;>
        simp [hes, hm, hmkind, classify, Phrase.isUnclassified, hq, Functor.map, Except.map]
  · simp [hes]

include hc hn hkind hattributes below in
/-- The feature of a node is that of its phrase, unless one of the kinds it
looks up has no classification. -/
theorem feature?_eq {identifiers : Array (Option NodeId)}
    (hid : identifiers[a]? = some (t.findDescendant? a "Identifier")) :
    t.feature? identifiers n =
      match (lookedUp p).find? Phrase.isUnclassified with
      | some q => .error (.unclassified q.kind)
      | none => .ok p.keptFeature? := by
  rw [find?_lookedUp, Tree.feature?, hkind, classify, Phrase.isUnclassified]
  cases hk : classify? p.kind with
  | none => rfl
  | some k =>
    cases k with
    | wrapper => simp [lookedUp_eq_singleton hk, Phrase.feature?, hk]
    | informative c =>
      by_cases hlit : c = .literal
      · subst hlit
        have hliteral := literal_eq hattributes
        simp only [lookedUp_eq_singleton hk (by decide), Phrase.feature?, hk, ← hliteral]
        cases n.literal <;> rfl
      · have hnamed := namedFeature?_eq hc hn hkind below c
        have hsuppressed := isSuppressed_eq hc hn hkind below
        simp only [Phrase.feature?, hk, hc.id_eq hn, hid, Option.join_some, hnamed, hsuppressed]
        cases (lookedUp p).tail.find? Phrase.isUnclassified with
        | some q => rfl
        | none => cases p.defersToPart <;> rfl

end

/-! ### All nodes -/

theorem collect_append (t : Tree) (identifiers : Array (Option NodeId)) (found : Array Feature)
    (ids ids' : List NodeId) :
    t.collect identifiers found (ids ++ ids') =
      (t.collect identifiers found ids).bind (t.collect identifiers · ids') := by
  induction ids generalizing found with
  | nil => rfl
  | cons id ids ih =>
    rw [List.cons_append, collect, collect]
    cases t.get? id with
    | none => exact ih found
    | some n =>
      simp only
      cases t.feature? identifiers n with
      | error e => rfl
      | ok f =>
        cases f with
        | none => exact ih found
        | some f => exact ih (found.push f)

theorem collect_cons {t : Tree} {identifiers : Array (Option NodeId)} {id : NodeId} {n : Node}
    {f : Option Feature} (hn : t.get? id = some n) (hf : t.feature? identifiers n = .ok f)
    (found : Array Feature) (ids : List NodeId) :
    t.collect identifiers found (id :: ids) =
      t.collect identifiers (found ++ f.toList.toArray) ids := by
  rw [collect, hn]
  cases f <;> simp [hf]

/-- Collecting the features of the nodes of some phrases extracts the phrases. -/
theorem Laid.collect {t : Tree} (hc : t.Consistent) {identifiers : Array (Option NodeId)}
    (hids : ∀ id < t.size, identifiers[id]? = some (t.findDescendant? id "Identifier"))
    {a c : NodeId} {ids : List NodeId} {ps : List Phrase} (h : t.Laid a ids ps c)
    (found : Array Feature) :
    t.collect identifiers found (ids.flatMap t.subtree) =
      (Phrase.extract (ps.flatMap Phrase.preorder)).map (found ++ ·.toArray) := by
  induction h generalizing found with
  | nil => simp [Tree.collect, Except.map]
  | @cons a b c n ids p ps hn hkind hattributes below _ ihbelow ihrest =>
    have hfeature := feature?_eq hc hn hkind hattributes below (hids a (lt_size_of_get? hn))
    rw [List.flatMap_cons, List.flatMap_cons, collect_append, hc.subtree_eq,
      childIds_eq_of_get? hn]
    cases hlook : (lookedUp p).find? Phrase.isUnclassified with
    | some q =>
      -- an error found in advance is the one that the visits reach next
      rw [hlook] at hfeature
      obtain ⟨qs, hqs⟩ := exists_preorder_eq p
      rw [hqs, List.append_assoc, Phrase.extract_of_find? hlook, Tree.collect, hn]
      simp only [hfeature]
      rfl
    | none =>
      rw [hlook] at hfeature
      have hp : p.isUnclassified = false := by
        rw [find?_lookedUp] at hlook
        cases hp : p.isUnclassified with
        | true => simp [hp] at hlook
        | false => rfl
      rw [collect_cons hn hfeature, ihbelow, Phrase.extract_append, p.preorder_eq,
        Phrase.extract_cons hp]
      cases Phrase.extract (p.parts.flatMap Phrase.preorder) with
      | error e => rfl
      | ok fs =>
        refine (ihrest _).trans ?_
        cases Phrase.extract (ps.flatMap Phrase.preorder) with
        | error e => rfl
        | ok gs =>
          change Except.ok (found ++ p.keptFeature?.toList.toArray ++ fs.toArray ++ gs.toArray) =
            Except.ok (found ++ (p.keptFeature?.toList ++ fs ++ gs).toArray)
          simp only [Array.append_assoc, List.append_toArray, List.append_assoc]

theorem Laid.features_eq {t : Tree} (hgrown : t.Grown) {p : Phrase}
    (h : t.Laid rootId [rootId] [p] t.size) :
    t.features = (Phrase.extract p.preorder).map List.toArray := by
  have hc := hgrown.consistent
  have hcollect := h.collect hc
    (fun id hid => hc.firstDescendants_getElem? "Identifier" hid) #[]
  rw [List.flatMap_singleton, List.flatMap_singleton, ← hc.preorder_eq] at hcollect
  rw [features, hcollect]
  cases Phrase.extract p.preorder with
  | error e => rfl
  | ok fs => exact congrArg Except.ok (Array.empty_append)

/-- The features of a program, given the kind of its root and its statements. -/
def programFeatures (kind : String) (body : List Value) : Except Error (Array Feature) :=
  ((ofRoot kind).buildProgram body).bind features

theorem programFeatures_eq (kind : String) (body : List Value) :
    programFeatures kind body =
      (Phrase.extract (Phrase.program kind body).preorder).map List.toArray := by
  rw [programFeatures, buildProgram_eq]
  obtain ⟨hgrown, hlaid⟩ := plantMembers_ofRoot kind (Phrase.program kind body).members
  exact Laid.features_eq hgrown.sealed (hlaid.congr fun _ _ _ => rfl)

end Tree

end ScriptFeatures
