import ScriptFeatures.Proofs.Phrase.Simulation

/-!
What features do not depend on. Positions are never read, and of the members of
an object with a type only those of a few names are, unless they hold phrases.
`Value.essential` leaves all other members out, wherever they stand. Leaving
them out is a simulation, so documents of one root kind with the same essential
statements have the same features or the same error
(`features_eq_of_essential`).

The object of a regular expression may have a type of its own. It is no phrase
all the same, and its pattern is read: the names that count depend on where an
object stands.
-/

namespace ScriptFeatures

open Json Growth

/-! ### Essential values -/

/-- The names whose members count in every object with a type. -/
def countedNames : List String := ["type", "name", "value", "regex"]

/-- The names whose members count, given the name that an object stands under;
an element of a list stands under none. -/
def countedUnder (place : Option String) : List String :=
  if place = some "regex" then "pattern" :: countedNames else countedNames

/-- A position, or a member of an object with a type that is of no counted name
and holds no phrases. -/
def isIncidental (names : List String) (typed : Bool) (m : String × Value) : Bool :=
  m.1 == "range" || (typed && !names.contains m.1 && (Phrase.heldBy m.2).isEmpty)

mutual

/-- A value without the incidental members of the objects in it. -/
def Json.Value.essential (counted : Option String → List String) (place : Option String) :
    Value → Value
  | .array items => .array (essentialItems counted items)
  | .object ms => .object (essentialMembers counted (counted place) (nodeKind? ms).isSome ms)
  | v => v

def essentialItems (counted : Option String → List String) : List Value → List Value
  | [] => []
  | v :: items => v.essential counted none :: essentialItems counted items

def essentialMembers (counted : Option String → List String) (names : List String)
    (typed : Bool) : Members → Members
  | [] => []
  | (name, v) :: ms =>
    if isIncidental names typed (name, v) then essentialMembers counted names typed ms
    else (name, v.essential counted (some name)) :: essentialMembers counted names typed ms

end

section

variable {counted : Option String → List String} {names : List String} {typed : Bool}

theorem essentialItems_eq_map (items : List Value) :
    essentialItems counted items = items.map (·.essential counted none) := by
  induction items with
  | nil => rfl
  | cons v items ih => rw [essentialItems, ih, List.map_cons]

@[simp] theorem string?_essential (place : Option String) (v : Value) :
    (v.essential counted place).string? = v.string? := by
  cases v <;> simp [Value.essential, Value.string?]

theorem isIncidental_eq_false {name : String} (hcounts : name ∈ names) (hrange : name ≠ "range")
    (v : Value) : isIncidental names typed (name, v) = false := by
  simp [isIncidental, hcounts, hrange]

theorem get?_essentialMembers {name : String} (hcounts : name ∈ names) (hrange : name ≠ "range")
    (ms : Members) :
    Members.get? (essentialMembers counted names typed ms) name =
      (Members.get? ms name).map (·.essential counted (some name)) := by
  induction ms with
  | nil => rfl
  | cons m ms ih =>
    obtain ⟨key, v⟩ := m
    simp only [Members.get?] at ih ⊢
    rw [essentialMembers, List.lookup_cons]
    by_cases hkey : name = key
    · subst hkey
      simp [isIncidental_eq_false hcounts hrange]
    · have hbeq : (name == key) = false := beq_eq_false_iff_ne.mpr hkey
      split <;> simp [List.lookup_cons, hbeq, ih]

theorem nodeKind?_essentialMembers (htype : "type" ∈ names) (ms : Members) :
    nodeKind? (essentialMembers counted names typed ms) = nodeKind? ms := by
  rw [nodeKind?, get?_essentialMembers htype (by decide), nodeKind?]
  cases Members.get? ms "type" with
  | none => rfl
  | some v => exact string?_essential _ v

end

theorem countedUnder_of_ne {place : Option String} (h : place ≠ some "regex") :
    countedUnder place = countedNames := if_neg h

/-! ### Essential phrases -/

namespace Phrase

def essential (p : Phrase) : Phrase :=
  ⟨p.kind, essentialMembers countedUnder countedNames true p.members⟩

theorem ofValue?_essential {place : Option String} (hplace : place ≠ some "regex") (v : Value) :
    ofValue? (v.essential countedUnder place) = (ofValue? v).map essential := by
  cases v with
  | object ms =>
    simp only [Value.essential, ofValue?, countedUnder_of_ne hplace]
    rw [nodeKind?_essentialMembers (by decide)]
    cases nodeKind? ms <;> rfl
  | null | bool _ | number _ | string _ | array _ => simp [Value.essential, ofValue?]

theorem filterMap_ofValue?_essential (items : List Value) :
    (essentialItems countedUnder items).filterMap ofValue? =
      (items.filterMap ofValue?).map essential := by
  rw [essentialItems_eq_map, List.filterMap_map, List.map_filterMap]
  refine List.filterMap_congr fun v _ => ofValue?_essential ?_ v
  exact Option.some_ne_none "regex" ∘ Eq.symm

theorem heldBy_essential {place : Option String} (hplace : place ≠ some "regex") (v : Value) :
    heldBy (v.essential countedUnder place) = (heldBy v).map essential := by
  have hself := ofValue?_essential hplace v
  cases v with
  | array items => exact filterMap_ofValue?_essential items
  | object ms =>
    simp only [Value.essential, heldBy] at hself ⊢
    rw [hself]
    cases ofValue? (.object ms) <;> rfl
  | null | bool _ | number _ | string _ => simp [Value.essential, heldBy, ofValue?]

theorem ofMember_of_isIncidental {names : List String} {typed : Bool} {m : String × Value}
    (h : isIncidental names typed m = true) : ofMember m.1 m.2 = [] := by
  rw [isIncidental, Bool.or_eq_true, beq_iff_eq, Bool.and_eq_true, List.isEmpty_iff] at h
  rw [ofMember]
  rcases h with hrange | ⟨-, hnone⟩
  · simp [hrange, leafNames]
  · rw [hnone, ite_self]

theorem ofMember_essential (name : String) (v : Value) :
    ofMember name (v.essential countedUnder (some name)) = (ofMember name v).map essential := by
  rw [ofMember, ofMember]
  split
  · rfl
  · next hleaf =>
    refine heldBy_essential (fun heq => hleaf ?_) v
    rw [Option.some.inj heq]
    decide

theorem parts_essential (p : Phrase) : p.essential.parts = p.parts.map essential := by
  obtain ⟨kind, ms⟩ := p
  simp only [essential, parts]
  induction ms with
  | nil => rfl
  | cons m ms ih =>
    obtain ⟨name, v⟩ := m
    rw [essentialMembers, List.flatMap_cons, List.map_append, ← ih]
    split
    · next h => rw [ofMember_of_isIncidental h, List.map_nil, List.nil_append]
    · rw [List.flatMap_cons, ofMember_essential]

/-! ### What is read of a phrase -/

/-- Attributes of a counted name are given by the essential members as far as
they are the same for essential values. -/
theorem attributesNamed_essential {β : Type} (read : Attribute → β) {name : String}
    (hcounts : name ∈ countedNames) (hrange : name ≠ "range")
    (hread : ∀ v : Value, (memberAttribute? name v).map read =
      (memberAttribute? name (v.essential countedUnder (some name))).map read) (p : Phrase) :
    (attributesNamed name p.members).map read =
      (attributesNamed name p.essential.members).map read := by
  obtain ⟨kind, ms⟩ := p
  simp only [essential, attributesNamed, List.map_filterMap]
  induction ms with
  | nil => rfl
  | cons m ms ih =>
    obtain ⟨key, v⟩ := m
    rw [essentialMembers, List.filterMap_cons, ih]
    by_cases hkey : key = name
    · subst hkey
      rw [isIncidental_eq_false hcounts hrange v]
      simp [List.filterMap_cons, hread v]
    · simp only [hkey, if_false, Option.map_none]
      split
      · rfl
      · simp [hkey]

theorem memberAttribute?_essential {name : String} (hleaf : name ∉ leafNames) (v : Value) :
    memberAttribute? name v = memberAttribute? name (v.essential countedUnder (some name)) := by
  simp only [leafNames, List.mem_cons, List.not_mem_nil, or_false, not_or] at hleaf
  cases v with
  | array items =>
    cases items <;> simp [Value.essential, essentialItems, memberAttribute?, hleaf]
  | null | bool _ | number _ | string _ | object _ =>
    simp [Value.essential, memberAttribute?, hleaf]

theorem pattern?_essential (v : Value) :
    (memberAttribute? "regex" v).map Attribute.pattern? =
      (memberAttribute? "regex" (v.essential countedUnder (some "regex"))).map
        Attribute.pattern? := by
  rw [memberAttribute?_regex, memberAttribute?_regex]
  cases v with
  | object ms =>
    have hpattern := @get?_essentialMembers countedUnder (countedUnder (some "regex"))
      (nodeKind? ms).isSome "pattern" (by decide) (by decide) ms
    simp only [Value.essential, Attribute.ofRegex, Option.map_some, Attribute.pattern?, hpattern]
    cases Members.get? ms "pattern" with
    | none => rfl
    | some v => simp
  | null | bool _ | number _ | string _ | array _ =>
    simp [Value.essential, Attribute.ofRegex, Attribute.ofScalar]

theorem readAlike_essential (p : Phrase) : p.ReadAlike p.essential where
  kind := rfl
  name := by
    have h := attributesNamed_essential id (by decide : "name" ∈ countedNames) (by decide)
      (fun v => congrArg _ (memberAttribute?_essential (by decide) v)) p
    simpa using h
  value := by
    have h := attributesNamed_essential id (by decide : "value" ∈ countedNames) (by decide)
      (fun v => congrArg _ (memberAttribute?_essential (by decide) v)) p
    simpa using h
  pattern := attributesNamed_essential Attribute.pattern? (by decide) (by decide)
    pattern?_essential p

theorem simulation_essential : Simulation fun p q => q = p.essential where
  alike := by
    rintro p q rfl
    exact p.readAlike_essential
  parts := by
    rintro p q rfl
    refine ⟨p.parts.map essential, [], ?_, ?_, ?_⟩
    · rw [parts_essential, List.append_nil]
    · rw [List.forall₂_map_right_iff, List.forall₂_same]
      exact fun _ _ => rfl
    · exact fun _ hr => absurd hr List.not_mem_nil

theorem extract_essential (p : Phrase) : extract p.preorder = extract p.essential.preorder :=
  simulation_essential.extract_eq rfl

theorem essential_program (kind : String) (body : List Value) :
    (program kind body).essential = ⟨kind, ("type", .string kind) ::
      if ((essentialItems countedUnder body).filterMap ofValue?).isEmpty then []
      else [("body", .array (essentialItems countedUnder body))]⟩ := by
  rw [filterMap_ofValue?_essential, List.isEmpty_map]
  simp [program, essential, essentialMembers, isIncidental, countedNames, Value.essential, heldBy]

end Phrase

/-- Documents of one root kind whose statements have the same essential values
have the same features, or fail with the same error, whatever else is in
them. -/
theorem features_eq_of_essential {a b : Descriptor} (hkind : a.kind = b.kind)
    (hbody : essentialItems countedUnder a.body = essentialItems countedUnder b.body) :
    a.toTree.bind Tree.features = b.toTree.bind Tree.features := by
  change Tree.programFeatures a.kind a.body = Tree.programFeatures b.kind b.body
  rw [Tree.programFeatures_eq, Tree.programFeatures_eq, Phrase.extract_essential,
    (Phrase.program b.kind b.body).extract_essential, Phrase.essential_program,
    Phrase.essential_program, hkind, hbody]

def documentOf (statement : Value) (tokens : List Value) : Descriptor :=
  { kind := "Program", body := [statement], sourceType := "script", range := (0, 4),
    tokens, comments := [], leadingComments := [] }

theorem features_documentOf (statement : Value) (tokens : List Value) :
    (documentOf statement tokens).toTree.bind Tree.features =
      (Phrase.extract (Phrase.program "Program" [statement]).preorder).map List.toArray :=
  Tree.programFeatures_eq "Program" [statement]

def placedLiteral : Value :=
  .object [("type", .string "ExpressionStatement"),
    ("range", .array [.number (.integer 0), .number (.integer 4)]),
    ("expression", .object [("type", .string "Literal"), ("value", .bool true),
      ("raw", .string "true")])]

def bareLiteral : Value :=
  .object [("directive", .array [.null]), ("type", .string "ExpressionStatement"),
    ("expression", .object [("optional", .bool false), ("range", .null),
      ("type", .string "Literal"), ("value", .bool true)])]

theorem features_placedLiteral (tokens : List Value) :
    (documentOf placedLiteral tokens).toTree.bind Tree.features =
      .ok #[⟨"Bool", .bool true⟩] := by
  have hpreorder : (Phrase.program "Program" [placedLiteral]).preorder =
      [Phrase.program "Program" [placedLiteral], ⟨"ExpressionStatement", placedLiteral.members⟩,
        ⟨"Literal", [("type", .string "Literal"), ("value", .bool true),
          ("raw", .string "true")]⟩] := by
    simp [Phrase.preorder_eq, Phrase.program, placedLiteral, Phrase.parts, Phrase.ofMember,
      leafNames, Phrase.heldBy, Phrase.ofValue?, nodeKind?, Members.get?, Value.string?,
      Value.members]
  rw [features_documentOf, hpreorder]
  rfl

theorem features_bareLiteral :
    essentialItems countedUnder (documentOf placedLiteral []).body =
        essentialItems countedUnder (documentOf bareLiteral [.null]).body ∧
      (documentOf bareLiteral [.null]).toTree.bind Tree.features =
        .ok #[⟨"Bool", .bool true⟩] := by
  have hbody : essentialItems countedUnder (documentOf placedLiteral []).body =
      essentialItems countedUnder (documentOf bareLiteral [.null]).body := rfl
  have hfeatures : (documentOf placedLiteral []).toTree.bind Tree.features =
      (documentOf bareLiteral [.null]).toTree.bind Tree.features :=
    features_eq_of_essential rfl hbody
  exact ⟨hbody, hfeatures ▸ features_placedLiteral []⟩

/-- A literal whose regular expression is an object with a type. -/
def typedRegex (pattern : String) : Value :=
  .object [("type", .string "Literal"), ("regex", .object [("type", .string "RegExp"),
    ("pattern", .string pattern)])]

theorem features_typedRegex (pattern : String) :
    (documentOf (typedRegex pattern) []).toTree.bind Tree.features =
      .ok #[⟨"RegExp", .string pattern⟩] := by
  have hpreorder : (Phrase.program "Program" [typedRegex pattern]).preorder =
      [Phrase.program "Program" [typedRegex pattern],
        ⟨"Literal", (typedRegex pattern).members⟩] := by
    simp [Phrase.preorder_eq, Phrase.program, typedRegex, Phrase.parts, Phrase.ofMember,
      leafNames, Phrase.heldBy, Phrase.ofValue?, nodeKind?, Members.get?, Value.string?,
      Value.members]
  rw [features_documentOf, hpreorder]
  rfl

/-- Without the exception for regular expressions the pattern of such a literal
would be left out, though it is read. -/
theorem features_ne_of_typedRegex :
    ¬ ∀ a b : Descriptor, a.kind = b.kind →
      essentialItems (fun _ => countedNames) a.body =
        essentialItems (fun _ => countedNames) b.body →
      a.toTree.bind Tree.features = b.toTree.bind Tree.features := by
  intro hall
  have hsame := hall (documentOf (typedRegex "a") []) (documentOf (typedRegex "b") []) rfl rfl
  rw [features_typedRegex, features_typedRegex] at hsame
  simp at hsame

end ScriptFeatures
