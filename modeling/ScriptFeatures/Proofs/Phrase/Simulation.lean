import Mathlib.Data.List.Induction
import ScriptFeatures.Proofs.Phrase.Extraction

/-!
Phrases whose features are the same. Of the members of a phrase its features
depend on the attributes that three names are given, and of these only on what
`Phrase.ReadAlike` compares. A simulation relates phrases that are read alike
and relates their parts one by one; the second phrase may end in further parts
that are remarks, which have a category but neither parts nor a name. Phrases
that a simulation relates are extracted alike (`Phrase.Simulation.extract_eq`):
a remark can become the first part of a phrase only where there was none, and
such a phrase has no identifier below it and so no feature.
-/

namespace ScriptFeatures

open Json Growth

namespace Phrase

theorem bind_eq_join {α β : Type} (o : Option α) (f : α → Option β) :
    o.bind f = (o.map f).join := by
  cases o <;> rfl

/-! ### Attributes of one name -/

/-- The attributes that members give to a name, in order. -/
def attributesNamed (name : String) (ms : Members) : List Attribute :=
  ms.filterMap fun m => if m.1 = name then memberAttribute? name m.2 else none

theorem foldl_keepMember_getLast? (ms : Members) (as : Attributes) (name : String) :
    (ms.foldl keepMember as).get? name =
      (attributesNamed name ms).getLast?.or (as.get? name) := by
  induction ms using List.reverseRecOn with
  | nil => rfl
  | append_singleton ms m ih =>
    have hkeep : (keepMember (ms.foldl keepMember as) m).get? name =
        (if m.1 = name then memberAttribute? name m.2 else none).or
          ((ms.foldl keepMember as).get? name) := by
      rw [keepMember]
      by_cases hname : m.1 = name
      · subst hname
        cases memberAttribute? m.1 m.2 with
        | none => simp
        | some a => simp [Attributes.get?_insert]
      · cases memberAttribute? m.1 m.2 with
        | none => simp [hname]
        | some a => simp [Attributes.get?_insert, hname, Ne.symm hname]
    rw [List.foldl_append, List.foldl_cons, List.foldl_nil, hkeep, ih, attributesNamed,
      attributesNamed, List.filterMap_append, List.getLast?_append, Option.or_assoc]
    congr 1
    simp only [List.filterMap_cons, List.filterMap_nil]
    cases (if m.1 = name then memberAttribute? name m.2 else none) <;> rfl

theorem attributes_get?_eq_getLast? (p : Phrase) (name : String) :
    p.attributes.get? name = (attributesNamed name p.members).getLast? := by
  rw [attributes, foldl_keepMember_getLast?]
  exact Option.or_none

/-- Two phrases are of one kind, and their members give alike what features are
read from: names, values and the patterns of regular expressions. -/
structure ReadAlike (p q : Phrase) : Prop where
  kind : p.kind = q.kind
  name : attributesNamed "name" p.members = attributesNamed "name" q.members
  value : attributesNamed "value" p.members = attributesNamed "value" q.members
  pattern : (attributesNamed "regex" p.members).map Attribute.pattern? =
    (attributesNamed "regex" q.members).map Attribute.pattern?

namespace ReadAlike

variable {p q : Phrase}

theorem keptName?_eq (h : p.ReadAlike q) : p.keptName? = q.keptName? := by
  rw [keptName?, keptName?, attributes_get?_eq_getLast?, attributes_get?_eq_getLast?, h.name]

theorem keptLiteral?_eq (h : p.ReadAlike q) : p.keptLiteral? = q.keptLiteral? := by
  have hvalue : p.attributes.get? "value" = q.attributes.get? "value" := by
    rw [attributes_get?_eq_getLast?, attributes_get?_eq_getLast?, h.value]
  have hpattern : (p.attributes.get? "regex").map Attribute.pattern? =
      (q.attributes.get? "regex").map Attribute.pattern? := by
    rw [attributes_get?_eq_getLast?, attributes_get?_eq_getLast?, ← List.getLast?_map,
      ← List.getLast?_map, h.pattern]
  rw [keptLiteral?, keptLiteral?, hvalue, bind_eq_join _ Attribute.pattern?,
    bind_eq_join _ Attribute.pattern?, hpattern]

theorem isUnclassified_eq (h : p.ReadAlike q) : p.isUnclassified = q.isUnclassified := by
  rw [isUnclassified, isUnclassified, h.kind]

end ReadAlike

/-! ### The first name -/

/-- The name of the first identifier among some phrases, if there is one; the
identifier may be without a name. -/
def firstName? (ps : List Phrase) : Option (Option String) :=
  (ps.find? (·.kind == "Identifier")).map keptName?

theorem firstName?_append (ps qs : List Phrase) :
    firstName? (ps ++ qs) = (firstName? ps).or (firstName? qs) := by
  rw [firstName?, List.find?_append, Option.map_or, firstName?, firstName?]

theorem firstName?_cons (p : Phrase) (ps : List Phrase) :
    firstName? (p :: ps) =
      if p.kind = "Identifier" then some p.keptName? else firstName? ps := by
  rw [firstName?, List.find?_cons]
  by_cases h : p.kind = "Identifier"
  · simp [h]
  · rw [if_neg h, beq_eq_false_iff_ne.mpr h]
    rfl

theorem firstIdentifier?_bind_keptName? (p : Phrase) :
    p.firstIdentifier?.bind keptName? = (firstName? (p.parts.flatMap preorder)).join :=
  bind_eq_join _ _

/-- Phrases that are read alike have the same feature if they have the same
name below them and, should there be one, their first parts mean the same. -/
theorem ReadAlike.keptFeature?_eq {p q : Phrase} (h : p.ReadAlike q)
    (hname : firstName? (p.parts.flatMap preorder) = firstName? (q.parts.flatMap preorder))
    (hfirst : (firstName? (p.parts.flatMap preorder)).join ≠ none →
      p.defersToPart = q.defersToPart ∧ p.isThisAccess = q.isThisAccess) :
    p.keptFeature? = q.keptFeature? := by
  simp only [feature?, h.kind, h.keptLiteral?_eq, firstIdentifier?_bind_keptName?, ← hname]
  cases hfound : (firstName? (p.parts.flatMap preorder)).join with
  | none => simp only [Option.map_none, ite_self]
  | some name =>
    obtain ⟨hdefers, hthis⟩ := hfirst (by rw [hfound]; exact Option.some_ne_none name)
    rw [hdefers, hthis]

/-! ### Remarks -/

/-- A phrase with a comment's category that has no parts. -/
structure IsRemark (p : Phrase) : Prop where
  classified : classify? p.kind = some (.informative .comment)
  parts : p.parts = []

namespace IsRemark

variable {p : Phrase}

theorem preorder_eq (h : p.IsRemark) : p.preorder = [p] := by
  rw [Phrase.preorder_eq, h.parts, List.flatMap_nil]

theorem firstName?_append (h : p.IsRemark) (ps : List Phrase) :
    firstName? (ps ++ p.preorder) = firstName? ps := by
  have hkind : p.kind ≠ "Identifier" := by
    intro heq
    have hclassified := h.classified
    rw [heq] at hclassified
    exact absurd hclassified (by decide)
  rw [Phrase.firstName?_append, h.preorder_eq, firstName?_cons, if_neg hkind]
  exact Option.or_none

theorem extract_append (h : p.IsRemark) (ps : List Phrase) :
    extract (ps ++ p.preorder) = extract ps := by
  have hknown : p.isUnclassified = false := by
    rw [isUnclassified, h.classified]
    rfl
  have hfeature : p.keptFeature? = none := by
    simp [feature?, h.classified, firstIdentifier?, h.parts]
  rw [Phrase.extract_append, h.preorder_eq, extract_cons hknown, hfeature]
  cases extract ps with
  | error e => rfl
  | ok fs => exact congrArg Except.ok (List.append_nil fs)

end IsRemark

/-! ### Simulations -/

/-- Related phrases are read alike, and their parts are related one by one, up
to remarks after the parts of the second. -/
structure Simulation (R : Phrase → Phrase → Prop) : Prop where
  alike {p q : Phrase} : R p q → p.ReadAlike q
  parts {p q : Phrase} : R p q → ∃ qs remarks, q.parts = qs ++ remarks ∧
    List.Forall₂ R p.parts qs ∧ ∀ r ∈ remarks, r.IsRemark

section

variable {γ : Type} {F : List Phrase → γ}

theorem flatMap_preorder_congr (compose : γ → γ → γ)
    (happend : ∀ ps qs, F (ps ++ qs) = compose (F ps) (F qs)) {ps qs : List Phrase}
    (h : List.Forall₂ (fun p q => F p.preorder = F q.preorder) ps qs) :
    F (ps.flatMap preorder) = F (qs.flatMap preorder) := by
  induction h with
  | nil => rfl
  | cons hpq _ ih => rw [List.flatMap_cons, List.flatMap_cons, happend, happend, hpq, ih]

theorem append_remarks_eq (hremark : ∀ r : Phrase, r.IsRemark → ∀ ps, F (ps ++ r.preorder) = F ps)
    (ps : List Phrase) {remarks : List Phrase} (h : ∀ r ∈ remarks, r.IsRemark) :
    F (ps ++ remarks.flatMap preorder) = F ps := by
  induction remarks using List.reverseRecOn with
  | nil => rw [List.flatMap_nil, List.append_nil]
  | append_singleton rs r ih =>
    have hlast := hremark r (h r (List.mem_append_right rs List.mem_cons_self))
    rw [List.flatMap_append, List.flatMap_singleton, ← List.append_assoc, hlast]
    exact ih fun r' hr' => h r' (List.mem_append_left [r] hr')

end

namespace Simulation

variable {R : Phrase → Phrase → Prop} {p q : Phrase}

/-- What is composed from all below a phrase and not changed by remarks is the
same for related phrases if it is the same for their parts. -/
theorem flatMap_parts_eq (hR : Simulation R) (h : R p q) {γ : Type} {F : List Phrase → γ}
    (compose : γ → γ → γ) (happend : ∀ ps qs, F (ps ++ qs) = compose (F ps) (F qs))
    (hremark : ∀ r : Phrase, r.IsRemark → ∀ ps, F (ps ++ r.preorder) = F ps)
    (hparts : ∀ p' ∈ p.parts, ∀ q', R p' q' → F p'.preorder = F q'.preorder) :
    F (p.parts.flatMap preorder) = F (q.parts.flatMap preorder) := by
  obtain ⟨qs, remarks, hq, hrelated, hr⟩ := hR.parts h
  have hpairs := (List.forall₂_and_left p.parts qs).mpr ⟨hparts, hrelated⟩
  have hfirst := flatMap_preorder_congr compose happend
    (hpairs.imp fun p' q' hpair => hpair.1 q' hpair.2)
  rw [hfirst, hq, List.flatMap_append, append_remarks_eq hremark _ hr]

theorem firstName?_parts_eq (hR : Simulation R) (h : R p q)
    (hparts : ∀ p' ∈ p.parts, ∀ q', R p' q' →
      firstName? p'.preorder = firstName? q'.preorder) :
    firstName? (p.parts.flatMap preorder) = firstName? (q.parts.flatMap preorder) :=
  hR.flatMap_parts_eq h Option.or firstName?_append (fun _ => IsRemark.firstName?_append) hparts

theorem firstName?_eq (hR : Simulation R) (h : R p q) :
    firstName? p.preorder = firstName? q.preorder := by
  induction p using induction_on_parts generalizing q with
  | step p ih =>
    have hbelow := hR.firstName?_parts_eq h fun p' hp' q' => ih p' hp'
    rw [p.preorder_eq, q.preorder_eq, firstName?_cons, firstName?_cons, (hR.alike h).kind,
      (hR.alike h).keptName?_eq, hbelow]

/-- If a phrase has parts, its first part and that of a related phrase are of
one kind. -/
theorem head?_kind_eq (hR : Simulation R) (h : R p q) (hne : p.parts ≠ []) :
    p.parts.head?.map (·.kind) = q.parts.head?.map (·.kind) := by
  obtain ⟨qs, remarks, hparts, hrelated, -⟩ := hR.parts h
  rw [hparts]
  generalize p.parts = ps at hrelated hne
  cases hrelated with
  | nil => contradiction
  | cons hfirst _ => simp [(hR.alike hfirst).kind]

theorem keptFeature?_eq (hR : Simulation R) (h : R p q) : p.keptFeature? = q.keptFeature? := by
  have hbelow := hR.firstName?_parts_eq h fun _ _ _ => hR.firstName?_eq
  refine (hR.alike h).keptFeature?_eq hbelow fun hname => ?_
  -- a phrase with a name below it has parts, and no remark comes before them
  have hne : p.parts ≠ [] := by
    intro hnone
    rw [hnone] at hname
    exact hname rfl
  have hany (test : String → Bool) :
      p.parts.head?.any (test ·.kind) = q.parts.head?.any (test ·.kind) := by
    simpa [Option.any_map] using congrArg (Option.any test) (hR.head?_kind_eq h hne)
  constructor
  · rw [defersToPart, defersToPart, (hR.alike h).kind,
      hany fun kind => (classify? kind).any (·.isInformative)]
  · rw [isThisAccess, isThisAccess, (hR.alike h).kind, hany (· == "ThisExpression")]

theorem extract_eq (hR : Simulation R) (h : R p q) : extract p.preorder = extract q.preorder := by
  induction p using induction_on_parts generalizing q with
  | step p ih =>
    have halike := hR.alike h
    have hbelow := hR.flatMap_parts_eq h (fun fs gs => do return (← fs) ++ (← gs))
      extract_append (fun _ => IsRemark.extract_append) fun p' hp' q' => ih p' hp'
    rw [p.preorder_eq, q.preorder_eq]
    cases hp : p.isUnclassified with
    | true =>
      have hq : q.isUnclassified = true := halike.isUnclassified_eq ▸ hp
      simp [extract, hp, hq, halike.kind]
    | false =>
      have hq : q.isUnclassified = false := halike.isUnclassified_eq ▸ hp
      rw [extract_cons hp, extract_cons hq, hR.keptFeature?_eq h, hbelow]

end Simulation

/-- Programs whose phrases a simulation relates have the same features, or fail
with the same error. -/
theorem Simulation.programFeatures_eq {R : Phrase → Phrase → Prop} (hR : Simulation R)
    {kind kind' : String} {body body' : List Value}
    (h : R (program kind body) (program kind' body')) :
    Tree.programFeatures kind body = Tree.programFeatures kind' body' := by
  rw [Tree.programFeatures_eq, Tree.programFeatures_eq, hR.extract_eq h]

end Phrase

end ScriptFeatures
