import ScriptFeatures.Proofs.Phrase.Simulation

/-!
Comments that a parser attaches to the objects of a document. An attached list
of comments is the last member of its object, so the comments come after all
other parts of a phrase. They are informative themselves, but they hold no
phrases and hence no names: attaching them is a simulation, and a program has
the same features, or the same error, with them and without them
(`programFeatures_eq_of_commented`).
-/

namespace ScriptFeatures

open Json Growth

/-- The names under which comments are attached. -/
def attachmentNames : List String := ["leadingComments", "trailingComments", "innerComments"]

/-- An object of a comment's kind that holds no phrases. -/
inductive IsComment : Value → Prop
  | intro {kind : String} {ms : Members} (hkind : nodeKind? ms = some kind)
      (hcomment : kind = "Line" ∨ kind = "Block")
      (hparts : (⟨kind, ms⟩ : Phrase).parts = []) : IsComment (.object ms)

mutual

/-- The second value is the first with comments attached to some of the objects
in it that have a type, each time under a name that is new to the object. -/
inductive Commented : Value → Value → Prop
  | null : Commented .null .null
  | bool (b : Bool) : Commented (.bool b) (.bool b)
  | number (n : Number) : Commented (.number n) (.number n)
  | string (s : String) : Commented (.string s) (.string s)
  | array {vs ws : List Value} (hitems : List.Forall₂ Commented vs ws) :
      Commented (.array vs) (.array ws)
  | object {ms ns : Members} (hmembers : CommentedMembers ms ns) :
      Commented (.object ms) (.object ns)
  | attach {ms ns : Members} {name : String} {comments : List Value}
      (hmembers : CommentedMembers ms ns) (htyped : (nodeKind? ms).isSome)
      (hname : name ∈ attachmentNames) (hnew : name ∉ ms.map Prod.fst)
      (hcomments : ∀ c ∈ comments, IsComment c) :
      Commented (.object ms) (.object (ns ++ [(name, .array comments)]))

inductive CommentedMembers : Members → Members → Prop
  | nil : CommentedMembers [] []
  | cons {v w : Value} {ms ns : Members} (name : String) (hvalue : Commented v w)
      (hrest : CommentedMembers ms ns) : CommentedMembers ((name, v) :: ms) ((name, w) :: ns)

end

/-! ### Members -/

theorem Commented.exists_object {ms : Members} {w : Value} (h : Commented (.object ms) w) :
    ∃ ns, w = .object ns := by
  cases h <;> exact ⟨_, rfl⟩

/-- The members of an object with comments are those of the object without,
with comments in their values, and perhaps comments after them. -/
theorem Commented.members {ms ns : Members} (h : Commented (.object ms) (.object ns)) :
    ∃ ns' attached, ns = ns' ++ attached ∧ CommentedMembers ms ns' ∧
      ∀ m ∈ attached, m.1 ∈ attachmentNames ∧
        ∃ comments, m.2 = .array comments ∧ ∀ c ∈ comments, IsComment c := by
  cases h with
  | object hmembers => exact ⟨ns, [], (List.append_nil ns).symm, hmembers, by simp⟩
  | @attach _ ns' name comments hmembers _ hname _ hcomments =>
    refine ⟨ns', [(name, .array comments)], rfl, hmembers, fun m hm => ?_⟩
    rw [List.mem_singleton] at hm
    subst hm
    exact ⟨hname, comments, rfl, hcomments⟩

theorem Commented.string?_eq {v w : Value} (h : Commented v w) : v.string? = w.string? := by
  cases h <;> rfl

theorem Commented.get?_string? {ms ns : Members} (h : Commented (.object ms) (.object ns))
    {name : String} (hname : name ∉ attachmentNames) :
    (Members.get? ms name).bind Value.string? = (Members.get? ns name).bind Value.string? := by
  obtain ⟨ns', attached, rfl, hmembers, hattached⟩ := h.members
  have hnone : attached.lookup name = none := by
    rw [List.lookup_eq_none_iff]
    intro m hm
    rw [bne_iff_ne]
    rintro rfl
    exact hname (hattached m hm).1
  simp only [Members.get?, List.lookup_append, hnone, Option.or_none]
  clear h hattached hnone
  induction ms generalizing ns' with
  | nil =>
    cases hmembers
    rfl
  | cons m ms ih =>
    cases hmembers with
    | cons key hvalue hrest =>
      rw [List.lookup_cons, List.lookup_cons]
      cases name == key with
      | true => exact hvalue.string?_eq
      | false => exact ih _ hrest

theorem Commented.nodeKind?_eq {ms ns : Members} (h : Commented (.object ms) (.object ns)) :
    nodeKind? ms = nodeKind? ns :=
  h.get?_string? (by decide)

namespace Phrase

/-! ### Parts -/

def WithComments (p q : Phrase) : Prop :=
  p.kind = q.kind ∧ Commented (.object p.members) (.object q.members)

theorem ofValue?_commented {v w : Value} (h : Commented v w) :
    Option.Rel WithComments (ofValue? v) (ofValue? w) := by
  cases v with
  | object ms =>
    obtain ⟨ns, rfl⟩ := h.exists_object
    rw [ofValue?, ofValue?, ← h.nodeKind?_eq]
    cases nodeKind? ms with
    | none => exact .none
    | some kind => exact .some ⟨rfl, h⟩
  | null | bool _ | number _ | string _ | array _ =>
    cases h
    exact .none

theorem heldBy_commented {v w : Value} (h : Commented v w) :
    List.Forall₂ WithComments (heldBy v) (heldBy w) := by
  cases v with
  | array items =>
    cases h with
    | array hitems => exact List.rel_filterMap (fun _ _ h => ofValue?_commented h) hitems
  | object ms =>
    have hself := ofValue?_commented h
    obtain ⟨ns, rfl⟩ := h.exists_object
    change List.Forall₂ _ (ofValue? (.object ms)).toList (ofValue? (.object ns)).toList
    generalize ofValue? (.object ms) = p at hself
    generalize ofValue? (.object ns) = q at hself
    cases hself with
    | none => exact .nil
    | some hpq => exact .cons hpq .nil
  | null | bool _ | number _ | string _ =>
    cases h
    exact .nil

theorem ofMember_commented (name : String) {v w : Value} (h : Commented v w) :
    List.Forall₂ WithComments (ofMember name v) (ofMember name w) := by
  rw [ofMember, ofMember]
  split
  · exact .nil
  · exact heldBy_commented h

theorem flatMap_ofMember_commented {ms ns : Members} (h : CommentedMembers ms ns) :
    List.Forall₂ WithComments (ms.flatMap fun m => ofMember m.1 m.2)
      (ns.flatMap fun m => ofMember m.1 m.2) := by
  induction ms generalizing ns with
  | nil =>
    cases h
    exact .nil
  | cons m ms ih =>
    cases h with
    | cons name hvalue hrest =>
      rw [List.flatMap_cons, List.flatMap_cons]
      exact List.rel_append (ofMember_commented name hvalue) (ih hrest)

theorem isRemark_of_isComment {c : Value} (h : IsComment c) {p : Phrase}
    (hp : ofValue? c = some p) : p.IsRemark := by
  cases h with
  | @intro kind ms hkind hcomment hparts =>
    rw [ofValue?, hkind, Option.map_some, Option.some.injEq] at hp
    subst hp
    refine ⟨?_, hparts⟩
    rcases hcomment with rfl | rfl <;> rfl

theorem parts_withComments {p q : Phrase} (h : p.WithComments q) :
    ∃ qs remarks, q.parts = qs ++ remarks ∧ List.Forall₂ WithComments p.parts qs ∧
      ∀ r ∈ remarks, r.IsRemark := by
  obtain ⟨ns, attached, hq, hmembers, hattached⟩ := h.2.members
  refine ⟨_, attached.flatMap fun m => ofMember m.1 m.2, ?_,
    flatMap_ofMember_commented hmembers, fun r hr => ?_⟩
  · rw [parts, hq, List.flatMap_append]
  · obtain ⟨m, hm, hr⟩ := List.mem_flatMap.mp hr
    obtain ⟨-, comments, hvalue, hcomments⟩ := hattached m hm
    rw [hvalue, ofMember, List.mem_ite_nil_left] at hr
    obtain ⟨c, hc, hcr⟩ := List.mem_filterMap.mp hr.2
    exact isRemark_of_isComment (hcomments c hc) hcr

/-! ### What is read of a phrase -/

theorem attributesNamed_commented {β : Type} (read : Attribute → β) {name : String}
    (hname : name ∉ attachmentNames)
    (hread : ∀ {v w : Value}, Commented v w →
      (memberAttribute? name v).map read = (memberAttribute? name w).map read)
    {ms ns : Members} (h : Commented (.object ms) (.object ns)) :
    (attributesNamed name ms).map read = (attributesNamed name ns).map read := by
  obtain ⟨ns', attached, rfl, hmembers, hattached⟩ := h.members
  have hnone : attributesNamed name attached = [] := by
    rw [attributesNamed, List.filterMap_eq_nil_iff]
    intro m hm
    refine if_neg fun heq => hname ?_
    rw [← heq]
    exact (hattached m hm).1
  have happend : attributesNamed name (ns' ++ attached) = attributesNamed name ns' := by
    rw [attributesNamed, List.filterMap_append, ← attributesNamed, ← attributesNamed, hnone,
      List.append_nil]
  rw [happend]
  simp only [attributesNamed, List.map_filterMap]
  clear h hattached hnone happend
  induction ms generalizing ns' with
  | nil =>
    cases hmembers
    rfl
  | cons m ms ih =>
    cases hmembers with
    | cons key hvalue hrest =>
      rw [List.filterMap_cons, List.filterMap_cons, ih _ hrest]
      by_cases hkey : key = name
      · simp only [hkey, if_true, hread hvalue]
      · simp only [hkey, if_false]

theorem memberAttribute?_commented {name : String} (hleaf : name ∉ leafNames) {v w : Value}
    (h : Commented v w) : memberAttribute? name v = memberAttribute? name w := by
  simp only [leafNames, List.mem_cons, List.not_mem_nil, or_false, not_or] at hleaf
  cases h with
  | array hitems => cases hitems <;> simp [memberAttribute?, hleaf]
  | null | bool _ | number _ | string _ | object _ | attach _ _ _ _ _ =>
    simp [memberAttribute?, hleaf]

theorem pattern?_commented {v w : Value} (h : Commented v w) :
    (memberAttribute? "regex" v).map Attribute.pattern? =
      (memberAttribute? "regex" w).map Attribute.pattern? := by
  rw [memberAttribute?_regex, memberAttribute?_regex]
  cases v with
  | object ms =>
    obtain ⟨ns, rfl⟩ := h.exists_object
    have hpattern := h.get?_string? (by decide : "pattern" ∉ attachmentNames)
    simp only [Attribute.ofRegex, Option.map_some, Attribute.pattern?, hpattern]
  | null | bool _ | number _ | string _ | array _ =>
    cases h
    rfl

theorem readAlike_withComments {p q : Phrase} (h : p.WithComments q) : p.ReadAlike q where
  kind := h.1
  name := by
    simpa using attributesNamed_commented id (by decide : "name" ∉ attachmentNames)
      (fun hvw => congrArg _ (memberAttribute?_commented (by decide) hvw)) h.2
  value := by
    simpa using attributesNamed_commented id (by decide : "value" ∉ attachmentNames)
      (fun hvw => congrArg _ (memberAttribute?_commented (by decide) hvw)) h.2
  pattern := attributesNamed_commented Attribute.pattern? (by decide) pattern?_commented h.2

theorem simulation_withComments : Simulation WithComments :=
  ⟨readAlike_withComments, parts_withComments⟩

end Phrase

/-- A program whose statements have comments attached has the features of the
program without them, or fails with the same error. -/
theorem programFeatures_eq_of_commented (kind : String) {body body' : List Value}
    (h : List.Forall₂ Commented body body') :
    Tree.programFeatures kind body = Tree.programFeatures kind body' := by
  refine Phrase.simulation_withComments.programFeatures_eq ⟨rfl, .object ?_⟩
  exact .cons "type" (.string kind) (.cons "body" (.array h) .nil)

def lineComment : Value := .object [("type", .string "Line"), ("value", .string " eval")]

def twoStatements (inExpression inFirst inSecond : Members) : List Value :=
  [.object ([("type", .string "ExpressionStatement"), ("expression",
      .object ([("type", .string "Literal"), ("value", .bool true)] ++ inExpression))] ++ inFirst),
    .object ([("type", .string "ExpressionStatement")] ++ inSecond)]

theorem programFeatures_twoStatements :
    Tree.programFeatures "Program" (twoStatements [] [] []) = .ok #[⟨"Bool", .bool true⟩] := by
  have hpreorder : (Phrase.program "Program" (twoStatements [] [] [])).preorder =
      [Phrase.program "Program" (twoStatements [] [] []),
        ⟨"ExpressionStatement", [("type", .string "ExpressionStatement"), ("expression",
          .object [("type", .string "Literal"), ("value", .bool true)])]⟩,
        ⟨"Literal", [("type", .string "Literal"), ("value", .bool true)]⟩,
        ⟨"ExpressionStatement", [("type", .string "ExpressionStatement")]⟩] := by
    simp [Phrase.preorder_eq, Phrase.program, twoStatements, Phrase.parts, Phrase.ofMember,
      leafNames, Phrase.heldBy, Phrase.ofValue?, nodeKind?, Members.get?, Value.string?]
  rw [Tree.programFeatures_eq, hpreorder]
  rfl

/-- The only part of the second statement is a comment. -/
theorem programFeatures_threeComments :
    Tree.programFeatures "Program" (twoStatements [("trailingComments", .array [lineComment])]
      [("leadingComments", .array [lineComment, lineComment])]
      [("innerComments", .array [lineComment])]) = .ok #[⟨"Bool", .bool true⟩] := by
  have hcomment : IsComment lineComment := .intro rfl (.inl rfl) rfl
  have hone : ∀ c ∈ [lineComment], IsComment c := by simp [hcomment]
  have htwo : ∀ c ∈ [lineComment, lineComment], IsComment c := by simp [hcomment]
  have hexpression : CommentedMembers [("type", .string "Literal"), ("value", .bool true)]
      [("type", .string "Literal"), ("value", .bool true)] :=
    .cons _ (.string _) (.cons _ (.bool _) .nil)
  have hfirst : CommentedMembers
      [("type", .string "ExpressionStatement"), ("expression",
        .object [("type", .string "Literal"), ("value", .bool true)])]
      [("type", .string "ExpressionStatement"), ("expression",
        .object ([("type", .string "Literal"), ("value", .bool true)] ++
          [("trailingComments", .array [lineComment])]))] :=
    .cons _ (.string _) (.cons _ (.attach hexpression rfl (by decide) (by decide) hone) .nil)
  have hsecond : CommentedMembers [("type", .string "ExpressionStatement")]
      [("type", .string "ExpressionStatement")] := .cons _ (.string _) .nil
  have hbody : List.Forall₂ Commented (twoStatements [] [] [])
      (twoStatements [("trailingComments", .array [lineComment])]
        [("leadingComments", .array [lineComment, lineComment])]
        [("innerComments", .array [lineComment])]) :=
    .cons (.attach hfirst rfl (by decide) (by decide) htwo)
      (.cons (.attach hsecond rfl (by decide) (by decide) hone) .nil)
  rw [← programFeatures_eq_of_commented "Program" hbody]
  exact programFeatures_twoStatements

end ScriptFeatures
