import ScriptFeatures.Proofs.Phrase.Extraction

/-!
Reading the features of a program off its document. `Phrase.features` looks at
the members of an object and at its parts and at nothing else: no tree is
built, nothing waits on a stack, and no table of first identifiers is filled.
Where every object gives each name once, the members of a phrase are what its
node keeps, and extraction reads the same features.
-/

namespace ScriptFeatures

open Json Growth

namespace Phrase

def name? (p : Phrase) : Option String := (Members.get? p.members "name").bind Value.string?

/-- The feature of a regular expression; a pattern that is missing is empty. -/
def pattern? (p : Phrase) : Option Feature :=
  match Members.get? p.members "regex" with
  | some (.object ms) =>
    some ⟨"RegExp", .string (((Members.get? ms "pattern").bind Value.string?).getD "")⟩
  | _ => none

/-- The feature of a literal: its value if that is a scalar, or else its
regular expression. -/
def literal? (p : Phrase) : Option Feature :=
  match Members.get? p.members "value" with
  | some (.string s) => some ⟨"String", .string s⟩
  | some (.number n) =>
    match n.signed? with
    | some i => some ⟨"Int", .integer i⟩
    | none => some ⟨"Numeric", .double n.toBinary64⟩
  | some (.bool b) => some ⟨"Bool", .bool b⟩
  | some .null => some ⟨"Null", .null⟩
  | some (.array _) | some (.object _) | none => p.pattern?

/-- The feature of a phrase, followed by those of its parts in order. -/
def features (p : Phrase) : List Feature :=
  (p.feature? literal? name?).toList ++ p.parts.attach.flatMap fun q => q.1.features
  termination_by sizeOf p.members
  decreasing_by exact sizeOf_of_mem_parts q.2

theorem features_eq (p : Phrase) :
    p.features = (p.feature? literal? name?).toList ++ p.parts.flatMap features := by
  rw [features]
  simp

theorem features_eq_filterMap (p : Phrase) :
    p.features = p.preorder.filterMap (feature? literal? name?) := by
  induction p using induction_on_parts with
  | step p ih =>
    rw [features_eq, preorder_eq, List.filterMap_cons, List.filterMap_flatMap,
      List.flatMap_def, List.flatMap_def, List.map_congr_left ih]
    cases p.feature? literal? name? <;> rfl

theorem mem_preorder_trans {p q r : Phrase} (hq : q ∈ p.preorder) (hr : r ∈ q.preorder) :
    r ∈ p.preorder := by
  induction p using induction_on_parts with
  | step p ih =>
    rw [preorder_eq, List.mem_cons] at hq
    rcases hq with rfl | hq
    · exact hr
    · obtain ⟨part, hpart, hq⟩ := List.mem_flatMap.mp hq
      rw [preorder_eq]
      exact List.mem_cons_of_mem _ (List.mem_flatMap.mpr ⟨part, hpart, ih part hpart hq⟩)

theorem feature?_congr {literal literal' : Phrase → Option Feature}
    {name name' : Phrase → Option String} {p : Phrase} (hliteral : literal p = literal' p)
    (hname : ∀ q ∈ p.preorder, name q = name' q) :
    p.feature? literal name = p.feature? literal' name' := by
  have hbelow : p.firstIdentifier?.bind name = p.firstIdentifier?.bind name' := by
    cases hfirst : p.firstIdentifier? with
    | none => rfl
    | some q =>
      refine hname q ?_
      rw [preorder_eq]
      exact List.mem_cons_of_mem _ (List.mem_of_find?_eq_some hfirst)
  simp only [feature?, hliteral, hbelow]

/-! ### Members and attributes -/

theorem keepMember_get? (as : Attributes) (m : String × Value) (name : String) :
    (keepMember as m).get? name =
      if name = m.1 then (memberAttribute? m.1 m.2).or (as.get? name) else as.get? name := by
  rw [keepMember]
  cases memberAttribute? m.1 m.2 with
  | none => simp
  | some a =>
    simp only [Attributes.get?_insert]
    split <;> rfl

theorem foldl_keepMember_get? (ms : Members) (as : Attributes) (name : String)
    (hdistinct : (ms.map Prod.fst).Nodup) :
    (ms.foldl keepMember as).get? name =
      ((Members.get? ms name).bind (memberAttribute? name)).or (as.get? name) := by
  induction ms generalizing as with
  | nil => rfl
  | cons m ms ih =>
    obtain ⟨key, v⟩ := m
    rw [List.map_cons, List.nodup_cons] at hdistinct
    rw [List.foldl_cons, ih _ hdistinct.2, keepMember_get?, Members.get?, Members.get?,
      List.lookup_cons]
    by_cases hname : name = key
    · subst hname
      -- the name does not come again, so the attribute is not replaced
      have hnone : ms.lookup name = none := by
        rw [List.lookup_eq_none_iff]
        intro entry hentry
        simp only [bne_iff_ne, ne_eq]
        intro heq
        exact hdistinct.1 (List.mem_map.mpr ⟨entry, hentry, heq.symm⟩)
      simp [hnone]
    · have hbeq : (name == key) = false := beq_eq_false_iff_ne.mpr hname
      simp [hname, hbeq]

/-- Where a phrase gives each name once, a member is what is kept of it. -/
theorem attributes_get? {p : Phrase} (hdistinct : (p.members.map Prod.fst).Nodup)
    (name : String) :
    p.attributes.get? name = (Members.get? p.members name).bind (memberAttribute? name) := by
  rw [attributes, foldl_keepMember_get? _ _ _ hdistinct]
  exact Option.or_none

theorem keptName?_eq {p : Phrase} (hdistinct : (p.members.map Prod.fst).Nodup) :
    p.keptName? = p.name? := by
  rw [keptName?, name?, attributes_get? hdistinct]
  cases Members.get? p.members "name" with
  | none => rfl
  | some v =>
    cases v with
    | array items => cases items <;> rfl
    | number n => cases hn : n.signed? <;> simp [memberAttribute?, Attribute.ofScalar, hn,
        Attribute.string?, Value.string?]
    | null | bool _ | string _ | object _ => rfl

theorem keptLiteral?_eq {p : Phrase} (hdistinct : (p.members.map Prod.fst).Nodup) :
    p.keptLiteral? = p.literal? := by
  have hpattern :
      ((p.attributes.get? "regex").bind Attribute.pattern?).map (fun pattern =>
        (⟨LiteralType.regex.name, .string pattern⟩ : Feature)) = p.pattern? := by
    rw [attributes_get? hdistinct, pattern?]
    cases Members.get? p.members "regex" with
    | none => rfl
    | some v =>
      rw [Option.bind_some, memberAttribute?_regex]
      cases v with
      | number n => cases hn : n.signed? <;> simp [Attribute.ofRegex, Attribute.ofScalar, hn,
          Attribute.pattern?]
      | null | bool _ | string _ | array _ | object _ => rfl
  rw [keptLiteral?, literal?, hpattern, attributes_get? hdistinct]
  cases Members.get? p.members "value" with
  | none => rfl
  | some v =>
    cases v with
    | array items => cases items <;> rfl
    | number n => cases hn : n.signed? <;> simp [memberAttribute?, Attribute.ofScalar, hn,
        Attribute.literal?, LiteralType.name]
    | null | bool _ | string _ | object _ => rfl

theorem filterMap_keptFeature? {p : Phrase}
    (hdistinct : ∀ q ∈ p.preorder, (q.members.map Prod.fst).Nodup) :
    p.preorder.filterMap keptFeature? = p.features := by
  rw [features_eq_filterMap]
  refine List.filterMap_congr fun q hq => feature?_congr (keptLiteral?_eq (hdistinct q hq)) ?_
  exact fun r hr => keptName?_eq (hdistinct r (mem_preorder_trans hq hr))

end Phrase

namespace Tree

/-- Where all kinds have a classification, the features of a program are those
that are read off its document. The objects of a document give each name once. -/
theorem programFeatures_eq_reading {kind : String} {body : List Value}
    (hdistinct : ∀ p ∈ (Phrase.program kind body).preorder, (p.members.map Prod.fst).Nodup)
    (hknown : ∀ p ∈ (Phrase.program kind body).preorder, (classify? p.kind).isSome) :
    programFeatures kind body = .ok (Phrase.program kind body).features.toArray := by
  have hnone : (Phrase.program kind body).preorder.find? Phrase.isUnclassified = none := by
    rw [List.find?_eq_none]
    intro p hp
    simpa [Phrase.isUnclassified] using Option.ne_none_iff_isSome.mpr (hknown p hp)
  rw [programFeatures_eq, Phrase.extract, hnone, Phrase.filterMap_keptFeature? hdistinct]
  rfl

/-- A statement that assigns a regular expression to a member of `this`. -/
def assignment : Value :=
  .object [("type", .string "ExpressionStatement"), ("expression",
    .object [("type", .string "AssignmentExpression"),
      ("left", .object [("type", .string "MemberExpression"),
        ("object", .object [("type", .string "ThisExpression")]),
        ("property", .object [("type", .string "Identifier"), ("name", .string "word")])]),
      ("right", .object [("type", .string "Literal"),
        ("regex", .object [("pattern", .string "a+")])])])]

theorem programFeatures_assignment :
    programFeatures "Program" [assignment] =
      .ok #[⟨"Assign", .string "word"⟩, ⟨"This", .string "word"⟩, ⟨"RegExp", .string "a+"⟩] := by
  have hpreorder : (Phrase.program "Program" [assignment]).preorder.map
      (fun p => (p.kind, p.members.map Prod.fst)) =
      [("Program", ["type", "body"]), ("ExpressionStatement", ["type", "expression"]),
        ("AssignmentExpression", ["type", "left", "right"]),
        ("MemberExpression", ["type", "object", "property"]), ("ThisExpression", ["type"]),
        ("Identifier", ["type", "name"]), ("Literal", ["type", "regex"])] := by
    simp [Phrase.preorder_eq, Phrase.program, assignment, Phrase.parts,
      Phrase.ofMember, leafNames, Phrase.heldBy, Phrase.ofValue?, nodeKind?, Members.get?,
      Value.string?]
  have hread : ∀ p ∈ (Phrase.program "Program" [assignment]).preorder,
      (p.members.map Prod.fst).Nodup ∧ (classify? p.kind).isSome := by
    have hall : ∀ q ∈ (Phrase.program "Program" [assignment]).preorder.map
        (fun p => (p.kind, p.members.map Prod.fst)), q.2.Nodup ∧ (classify? q.1).isSome := by
      rw [hpreorder]
      decide
    exact fun p hp => hall _ (List.mem_map_of_mem hp)
  rw [programFeatures_eq_reading (fun p hp => (hread p hp).1) fun p hp => (hread p hp).2]
  have hprogram : classify? "Program" = some .wrapper := by decide
  have hstatement : classify? "ExpressionStatement" = some (.informative .expressionStatement) := by
    decide
  have hassign : classify? "AssignmentExpression" = some (.informative .assign) := by decide
  have hmember : classify? "MemberExpression" = some (.informative .object) := by decide
  have hthis : classify? "ThisExpression" = some (.informative .this) := by decide
  have hidentifier : classify? "Identifier" = some .wrapper := by decide
  have hliteral : classify? "Literal" = some (.informative .literal) := by decide
  -- The table of kinds is looked up above, so that `simp` does not unfold it here.
  simp [Phrase.features_eq, Phrase.preorder_eq, Phrase.program, assignment, Phrase.parts,
    Phrase.ofMember, leafNames, Phrase.heldBy, Phrase.ofValue?, nodeKind?, Members.get?,
    Value.string?, Phrase.feature?, Phrase.defersToPart, Phrase.isThisAccess,
    Phrase.firstIdentifier?, Phrase.name?, Classification.isInformative, hprogram, hstatement,
    hassign, hmember, hthis, hidentifier, hliteral]
  rfl

end Tree

end ScriptFeatures
