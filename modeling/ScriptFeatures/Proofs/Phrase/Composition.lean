import ScriptFeatures.Proofs.Feature.Frequency
import ScriptFeatures.Proofs.Phrase.Extraction

/-!
Programs put together from statements. What a phrase contributes depends on
the phrase alone, wherever its nodes end up in a tree, so under a root without
a feature of its own the features of a list of statements are those of its
pieces one after another, and so are those of a list in which a piece stands
in a wrapper. The first piece that fails gives the error.
-/

namespace ScriptFeatures

open Json Growth

def Json.Value.isContainer : Value → Bool
  | .array _ | .object _ => true
  | .null | .bool _ | .number _ | .string _ => false

/-- An object of a kind without features that holds some statements under one
name, and no other container. -/
inductive Wraps (statements : List Value) : Value → Prop
  | intro {kind name : String} {before after : Members}
      (hkind : nodeKind? (before ++ (name, .array statements) :: after) = some kind)
      (hwrapper : classify? kind = some .wrapper) (hname : name ∉ leafNames)
      (hscalar : ∀ m ∈ before ++ after, m.2.isContainer = false) :
      Wraps statements (.object (before ++ (name, .array statements) :: after))

namespace Phrase

/-- The phrases of some statements and all below them, in order. -/
def statements (body : List Value) : List Phrase :=
  (body.filterMap ofValue?).flatMap preorder

theorem statements_append (xs ys : List Value) :
    statements (xs ++ ys) = statements xs ++ statements ys := by
  rw [statements, List.filterMap_append, List.flatMap_append, statements, statements]

theorem ofMember_of_scalar {m : String × Value} (h : m.2.isContainer = false) :
    ofMember m.1 m.2 = [] := by
  obtain ⟨name, v⟩ := m
  cases v with
  | array items => contradiction
  | object ms => contradiction
  | null | bool _ | number _ | string _ => simp [ofMember, heldBy, ofValue?]

theorem flatMap_ofMember_of_scalar {ms : Members} (h : ∀ m ∈ ms, m.2.isContainer = false) :
    ms.flatMap (fun m => ofMember m.1 m.2) = [] :=
  List.flatMap_eq_nil_iff.mpr fun m hm => ofMember_of_scalar (h m hm)

theorem preorder_program (kind : String) (body : List Value) :
    (program kind body).preorder = program kind body :: statements body := by
  have hparts : (program kind body).parts = body.filterMap ofValue? := by
    simp [parts, program, ofMember, leafNames, heldBy]
  rw [preorder_eq, hparts, statements]

theorem extract_wrapper {p : Phrase} (h : classify? p.kind = some .wrapper) (ps : List Phrase) :
    extract (p :: ps) = extract ps := by
  rw [extract_cons (by rw [isUnclassified, h]; rfl)]
  have hfeature : p.keptFeature? = none := by
    simp only [feature?, h]
  rw [hfeature]
  cases extract ps <;> rfl

theorem extract_wraps {body : List Value} {w : Value} (h : Wraps body w) :
    extract (statements [w]) = extract (statements body) := by
  cases h with
  | @intro kind name before after hkind hwrapper hname hscalar =>
    -- the scalars hold no phrases, so the parts of the wrapper are the statements
    have hbefore := flatMap_ofMember_of_scalar fun m hm =>
      hscalar m (List.mem_append_left after hm)
    have hafter := flatMap_ofMember_of_scalar fun m hm =>
      hscalar m (List.mem_append_right before hm)
    have hheld : ofMember name (.array body) = body.filterMap ofValue? := if_neg hname
    have hparts : (⟨kind, before ++ (name, .array body) :: after⟩ : Phrase).parts =
        body.filterMap ofValue? := by
      rw [parts, List.flatMap_append, List.flatMap_cons, hbefore, hafter, hheld,
        List.nil_append, List.append_nil]
    have hstatements : statements [.object (before ++ (name, .array body) :: after)] =
        ⟨kind, before ++ (name, .array body) :: after⟩ :: statements body := by
      simp only [statements, List.filterMap_cons, List.filterMap_nil, ofValue?, hkind,
        Option.map_some, List.flatMap_singleton, preorder_eq, hparts]
    rw [hstatements]
    exact extract_wrapper hwrapper _

end Phrase

namespace Tree

def programFrequencies (kind : String) (body : List Value) : Except Error Frequencies :=
  ((ofRoot kind).buildProgram body).bind frequencies

theorem programFrequencies_eq (kind : String) (body : List Value) :
    programFrequencies kind body =
      (programFeatures kind body).map fun fs => .ofList fs.toList := by
  rw [programFrequencies, programFeatures]
  cases (ofRoot kind).buildProgram body with
  | error e => rfl
  | ok t =>
    change t.frequencies = t.features.map _
    rw [frequencies]
    cases t.features <;> rfl

theorem programFeatures_of_wrapper {kind : String} (hkind : classify? kind = some .wrapper)
    (body : List Value) :
    programFeatures kind body = (Phrase.extract (Phrase.statements body)).map List.toArray := by
  rw [programFeatures_eq, Phrase.preorder_program, Phrase.extract_wrapper hkind]

theorem programFeatures_append {kind : String} (hkind : classify? kind = some .wrapper)
    (xs ys : List Value) :
    programFeatures kind (xs ++ ys) =
      do return (← programFeatures kind xs) ++ (← programFeatures kind ys) := by
  rw [programFeatures_of_wrapper hkind, programFeatures_of_wrapper hkind,
    programFeatures_of_wrapper hkind, Phrase.statements_append, Phrase.extract_append]
  cases Phrase.extract (Phrase.statements xs) with
  | error e => rfl
  | ok fs =>
    cases Phrase.extract (Phrase.statements ys) with
    | error e => rfl
    | ok gs => exact congrArg Except.ok (List.append_toArray fs gs).symm

theorem programFeatures_wraps {kind : String} (hkind : classify? kind = some .wrapper)
    {ys : List Value} {w : Value} (hw : Wraps ys w) :
    programFeatures kind [w] = programFeatures kind ys := by
  rw [programFeatures_of_wrapper hkind, programFeatures_of_wrapper hkind,
    Phrase.extract_wraps hw]

theorem programFrequencies_eq_ok {kind : String} {body : List Value} {m : Frequencies}
    (h : programFrequencies kind body = .ok m) :
    ∃ fs, programFeatures kind body = .ok fs ∧ m = .ofList fs.toList := by
  rw [programFrequencies_eq] at h
  cases hfs : programFeatures kind body with
  | error e =>
    rw [hfs] at h
    contradiction
  | ok fs =>
    rw [hfs] at h
    exact ⟨fs, rfl, (Except.ok.inj h).symm⟩

theorem programFrequencies_of_runs {kind : String} {body : List Value} {fx fy fz : Array Feature}
    (h : programFeatures kind body = .ok (fx ++ fy ++ fz)) :
    ∃ m, programFrequencies kind body = .ok m ∧
      m.total = (Frequencies.ofList fx.toList).total + (Frequencies.ofList fy.toList).total +
        (Frequencies.ofList fz.toList).total ∧
      ∀ f, m.count f = (Frequencies.ofList fx.toList).count f +
        (Frequencies.ofList fy.toList).count f + (Frequencies.ofList fz.toList).count f := by
  refine ⟨.ofList (fx ++ fy ++ fz).toList, ?_, ?_, fun f => ?_⟩
  · rw [programFrequencies_eq, h]
    rfl
  · simp only [Frequencies.total_ofList, Array.toList_append, List.length_append]
  · simp only [Frequencies.count_ofList, Array.toList_append, List.count_append]

/-- Under a root without features, a program of three pieces has the features
of the pieces in order, or the error of the first that fails, and this does not
change when the middle piece is wrapped. Its frequencies are the sums of those
of the pieces. -/
theorem programFeatures_pieces {kind : String} (hkind : classify? kind = some .wrapper)
    {xs ys zs body : List Value}
    (hbody : body = xs ++ ys ++ zs ∨ ∃ w, Wraps ys w ∧ body = xs ++ [w] ++ zs) :
    (programFeatures kind body =
      do return (← programFeatures kind xs) ++ (← programFeatures kind ys) ++
        (← programFeatures kind zs)) ∧
    ∀ mx my mz, programFrequencies kind xs = .ok mx → programFrequencies kind ys = .ok my →
      programFrequencies kind zs = .ok mz →
      ∃ m, programFrequencies kind body = .ok m ∧ m.total = mx.total + my.total + mz.total ∧
        ∀ f, m.count f = mx.count f + my.count f + mz.count f := by
  have hpieces : programFeatures kind body =
      (do return (← programFeatures kind xs) ++ (← programFeatures kind ys) ++
        (← programFeatures kind zs)) := by
    rcases hbody with rfl | ⟨w, hw, rfl⟩
    · rw [programFeatures_append hkind, programFeatures_append hkind]
      simp only [bind_assoc, pure_bind]
    · rw [programFeatures_append hkind, programFeatures_append hkind,
        programFeatures_wraps hkind hw]
      simp only [bind_assoc, pure_bind]
  refine ⟨hpieces, fun mx my mz hmx hmy hmz => ?_⟩
  obtain ⟨fx, hfx, rfl⟩ := programFrequencies_eq_ok hmx
  obtain ⟨fy, hfy, rfl⟩ := programFrequencies_eq_ok hmy
  obtain ⟨fz, hfz, rfl⟩ := programFrequencies_eq_ok hmz
  rw [hfx, hfy, hfz] at hpieces
  exact programFrequencies_of_runs hpieces

def boolStatement (b : Bool) : Value := .object [("type", .string "Literal"), ("value", .bool b)]

def blockOf (ys : List Value) : Value :=
  .object [("type", .string "BlockStatement"), ("body", .array ys), ("strict", .bool true)]

theorem programFeatures_boolStatement (b : Bool) :
    programFeatures "Program" [boolStatement b] = .ok #[⟨"Bool", .bool b⟩] := by
  have hstatements : Phrase.statements [boolStatement b] =
      [⟨"Literal", [("type", .string "Literal"), ("value", .bool b)]⟩] := by
    simp [Phrase.statements, boolStatement, Phrase.ofValue?, nodeKind?, Members.get?,
      Phrase.preorder_eq, Phrase.parts, Phrase.ofMember, leafNames, Phrase.heldBy, Value.string?]
  rw [programFeatures_of_wrapper (by decide), hstatements]
  cases b <;> rfl

theorem programFeatures_block :
    programFeatures "Program"
        ([boolStatement true] ++ [blockOf [boolStatement false]] ++ [boolStatement true]) =
      .ok #[⟨"Bool", .bool true⟩, ⟨"Bool", .bool false⟩, ⟨"Bool", .bool true⟩] ∧
    ∃ m, programFrequencies "Program"
        ([boolStatement true] ++ [blockOf [boolStatement false]] ++ [boolStatement true]) = .ok m ∧
      m.total = 3 ∧ m.count ⟨"Bool", .bool true⟩ = 2 := by
  have hwraps : Wraps [boolStatement false] (blockOf [boolStatement false]) :=
    @Wraps.intro _ "BlockStatement" "body" [("type", .string "BlockStatement")]
      [("strict", .bool true)] rfl (by decide) (by decide) (by simp [Value.isContainer])
  have hfrequencies (b : Bool) : programFrequencies "Program" [boolStatement b] =
      .ok (.ofList [⟨"Bool", .bool b⟩]) := by
    rw [programFrequencies_eq, programFeatures_boolStatement]
    rfl
  obtain ⟨hfeatures, hsums⟩ := programFeatures_pieces (by decide : classify? "Program" = _)
    (.inr ⟨_, hwraps, rfl⟩)
  obtain ⟨m, hm, htotal, hcount⟩ := hsums _ _ _ (hfrequencies true) (hfrequencies false)
    (hfrequencies true)
  refine ⟨?_, m, hm, htotal.trans rfl, (hcount _).trans ?_⟩
  · rw [hfeatures]
    simp only [programFeatures_boolStatement]
    rfl
  · simp [Frequencies.count_ofList]

end Tree

end ScriptFeatures
