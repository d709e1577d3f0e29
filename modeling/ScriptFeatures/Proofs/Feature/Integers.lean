import ScriptFeatures.Proofs.Descriptor.Reading
import ScriptFeatures.Proofs.Json.Integers
import ScriptFeatures.Proofs.Phrase.Failure
import ScriptFeatures.Proofs.Phrase.Reading
import ScriptFeatures.Proofs.Phrase.Written

/-!
Literals whose value is written as an integer. The digits are followed from the
text of a document to the feature of a node: an integer that fits a sign and 63
bits is the one that the node adds, and any other becomes a double. So features
of such literals are equal exactly if their integers are
(`Document.WritesInteger.emits_iff`).
-/

namespace ScriptFeatures

open Json ParseTree Decimal

def Json.Number.feature (n : Number) : Feature :=
  match n.signed? with
  | some i => ⟨"Int", .integer i⟩
  | none => ⟨"Numeric", .double n.toBinary64⟩

/-! ### Nodes of a tree -/

namespace Tree

variable {t : Tree} {identifiers : Array (Option NodeId)} {id : NodeId} {n : Node}

theorem Stands.feature?_literal {p : Phrase} (h : t.Stands id p) (hkind : p.kind = "Literal")
    (identifiers : Array (Option NodeId)) :
    ∃ n, t.get? id = some n ∧ t.feature? identifiers n = .ok p.keptLiteral? := by
  obtain ⟨n, hn, hnkind, hattributes⟩ := h
  have hclass : classify n.kind = .ok (.informative .literal) := by
    rw [hnkind, hkind]
    rfl
  refine ⟨n, hn, ?_⟩
  rw [feature?, hclass, ← literal_eq hattributes]
  cases n.literal <;> rfl

theorem subset_of_collect {ids : List NodeId} {found fs : Array Feature}
    (h : t.collect identifiers found ids = .ok fs) {f : Feature} (hf : f ∈ found) : f ∈ fs := by
  induction ids generalizing found with
  | nil =>
    cases h
    exact hf
  | cons id ids ih =>
    rw [collect] at h
    split at h
    · exact ih h hf
    · split at h
      · contradiction
      · exact ih h hf
      · exact ih h (Array.mem_push_of_mem _ hf)

theorem mem_of_collect {ids : List NodeId} {found fs : Array Feature}
    (h : t.collect identifiers found ids = .ok fs) (hid : id ∈ ids) (hn : t.get? id = some n)
    {f : Feature} (hf : t.feature? identifiers n = .ok (some f)) : f ∈ fs := by
  obtain ⟨before, after, rfl⟩ := List.append_of_mem hid
  rw [collect_append] at h
  cases hbefore : t.collect identifiers found before with
  | error e =>
    rw [hbefore] at h
    contradiction
  | ok fs' =>
    rw [hbefore] at h
    refine subset_of_collect ((collect_cons hn hf fs' after).symm.trans h) ?_
    exact Array.mem_append_right _ (List.mem_toArray.mpr (List.mem_singleton.mpr rfl))

end Tree

/-- A tree is built from every document, and the nodes behind its root are those
of the statements. -/
theorem Descriptor.exists_tree (d : Descriptor) :
    ∃ t, d.toTree = .ok t ∧ t.preorder Tree.rootId = List.range t.size ∧
      ∀ i p, (Phrase.statements d.body)[i]? = some p → t.Stands (i + 1) p := by
  obtain ⟨hgrown, hlaid⟩ := Growth.plantMembers_ofRoot d.kind (Phrase.program d.kind d.body).members
  have htree : d.toTree = .ok (Growth.plantMembers (Tree.ofRoot d.kind) Tree.rootId
    (Phrase.program d.kind d.body).members).sealed := Tree.buildProgram_eq d.kind d.body
  generalize Growth.plantMembers (Tree.ofRoot d.kind) Tree.rootId
    (Phrase.program d.kind d.body).members = t at hgrown hlaid htree
  have hsealed : t.sealed.Laid Tree.rootId [Tree.rootId] [Phrase.program d.kind d.body]
    t.sealed.size := hlaid.congr fun _ _ _ => rfl
  have hc := hgrown.sealed.consistent
  refine ⟨t.sealed, htree, hsealed.preorder_eq hc, fun i p hp => ?_⟩
  obtain ⟨-, hstands⟩ := hsealed.stands_getElem hc
  have hpreorder : (Phrase.program d.kind d.body).preorder[i + 1]? = some p := by
    rw [Phrase.preorder_program, List.getElem?_cons_succ, hp]
  obtain ⟨hi, rfl⟩ := List.getElem?_eq_some_iff.mp hpreorder
  exact hstands (i + 1) hi

/-! ### Written literals -/

namespace Json.ParseTree

/-- The nodes of the statements of a document, in order. -/
def documentNodes (x : ParseTree) : List ParseTree :=
  match x.place? Descriptor.placeNames "body" with
  | some (.array items) => statementNodes items
  | _ => []

theorem IsPhrase.exists_number {x : ParseTree} {p : Phrase} (h : x.IsPhrase p) {token : Token}
    (hvalue : x.field? "value" = some (.number token)) :
    ∃ number, numberOf? token = some number ∧ p.keptLiteral? = some number.feature := by
  rcases field?_cases h.1 "value" with ⟨hnone, -⟩ | ⟨y, v, hy, hv, hreads⟩
  · rw [hnone] at hvalue
    contradiction
  · rw [hy, Option.some.injEq] at hvalue
    subst hvalue
    cases hreads with
    | @number _ _ number _ hnumber haccept =>
      cases haccept
      refine ⟨number, hnumber, ?_⟩
      rw [Phrase.keptLiteral?_eq (nodup_names h.1), Phrase.literal?, hv, Number.feature]
      cases hsigned : number.signed? <;> simp only [hsigned]

end Json.ParseTree

/-- A document that is read, with the parse tree of its text. -/
structure Document where
  text : String
  source : ParseTree
  descriptor : Descriptor
  lexical : source.Lexical
  isText : Descriptor.IsText source text
  read : Descriptor.read text = .ok descriptor

namespace Document

variable {d : Document} {i : ℕ}

/-- A node of the statements is a literal whose value is written as an integer. -/
def WritesInteger (d : Document) (i : ℕ) (token : Token) (z : ℤ) : Prop :=
  ∃ x, d.source.documentNodes[i]? = some x ∧ x.kind? = some "Literal" ∧
    x.field? "value" = some (.number token) ∧ IsInteger token z

/-- A node of the statements has a feature in the tree of its document. -/
def Emits (d : Document) (i : ℕ) (f : Feature) : Prop :=
  ∃ t n, d.descriptor.toTree = .ok t ∧ t.get? (i + 1) = some n ∧
    t.feature? (t.firstDescendants "Identifier") n = .ok (some f)

def features (d : Document) : Except Error (Array Feature) :=
  Tree.programFeatures d.descriptor.kind d.descriptor.body

theorem exists_phrase {x : ParseTree} (h : d.source.documentNodes[i]? = some x) :
    ∃ p, (Phrase.statements d.descriptor.body)[i]? = some p ∧ x.IsPhrase p := by
  obtain ⟨items, hbody, hitems⟩ := Descriptor.exists_body d.lexical d.isText d.read
  rw [documentNodes, hbody] at h
  obtain ⟨hi, rfl⟩ := List.getElem?_eq_some_iff.mp h
  have hnodes := forall₂_statementNodes hitems
  have hi' : i < (Phrase.statements d.descriptor.body).length := hnodes.length_eq ▸ hi
  exact ⟨_, List.getElem?_eq_getElem hi', hnodes.get hi hi'⟩

theorem Emits.mem_features {f : Feature} (h : d.Emits i f) {fs : Array Feature}
    (hfs : d.features = .ok fs) : f ∈ fs := by
  obtain ⟨t, n, ht, hn, hf⟩ := h
  obtain ⟨t', ht', hpreorder, -⟩ := d.descriptor.exists_tree
  rw [ht, Except.ok.injEq] at ht'
  subst ht'
  change d.descriptor.toTree.bind Tree.features = .ok fs at hfs
  rw [ht] at hfs
  refine Tree.mem_of_collect hfs ?_ hn hf
  rw [hpreorder, List.mem_range]
  exact Tree.lt_size_of_get? hn

/-- A literal whose value is written as an integer has one feature, which is
that of the number that is read. -/
theorem WritesInteger.exists_number {token : Token} {z : ℤ} (h : d.WritesInteger i token z) :
    ∃ number, numberOf? token = some number ∧ ∀ f, d.Emits i f ↔ f = number.feature := by
  obtain ⟨x, hx, hkind, hvalue, -⟩ := h
  obtain ⟨p, hp, hphrase⟩ := exists_phrase hx
  obtain ⟨number, hnumber, hliteral⟩ := hphrase.exists_number hvalue
  obtain ⟨t, ht, -, hstands⟩ := d.descriptor.exists_tree
  have hpkind : p.kind = "Literal" := Option.some.inj (hphrase.2.symm.trans hkind)
  obtain ⟨n, hn, hfeature⟩ :=
    (hstands i p hp).feature?_literal hpkind (t.firstDescendants "Identifier")
  rw [hliteral] at hfeature
  refine ⟨number, hnumber, fun f => ⟨?_, ?_⟩⟩
  · rintro ⟨t', n', ht', hn', hf⟩
    rw [ht, Except.ok.injEq] at ht'
    subst ht'
    rw [hn, Option.some.injEq] at hn'
    subst hn'
    rw [hfeature] at hf
    exact (Option.some.inj (Except.ok.inj hf)).symm
  · rintro rfl
    exact ⟨t, n, ht, hn, hfeature⟩

/-- A literal whose value is written as an integer adds exactly that integer if
it fits a sign and 63 bits, and a double and nothing else otherwise. What is
extracted from the document has it. Two such literals that fit, of one document
or of two, have equal features exactly if their integers are equal. -/
theorem WritesInteger.emits_iff {token : Token} {z : ℤ} (h : d.WritesInteger i token z) :
    (FitsSigned token z → ∀ f, d.Emits i f ↔ f = ⟨"Int", .integer z⟩) ∧
    (¬ FitsSigned token z → ∃ y, ∀ f, d.Emits i f ↔ f = ⟨"Numeric", .double y⟩) ∧
    (∀ f fs, d.Emits i f → d.features = .ok fs → f ∈ fs) ∧
    ∀ (d' : Document) (i' : ℕ) (token' : Token) (z' : ℤ), d'.WritesInteger i' token' z' →
      FitsSigned token z → FitsSigned token' z' →
      ∀ f f', d.Emits i f → d'.Emits i' f' → (f = f' ↔ z = z') := by
  have hfits {d : Document} {i : ℕ} {token : Token} {z : ℤ} (h : d.WritesInteger i token z)
      (hfit : FitsSigned token z) (f : Feature) : d.Emits i f ↔ f = ⟨"Int", .integer z⟩ := by
    obtain ⟨number, hnumber, hemits⟩ := h.exists_number
    obtain ⟨-, -, -, -, hz⟩ := h
    have hsigned := (signed?_of_isInteger hz hnumber).1 hfit
    rw [hemits, Number.feature, hsigned]
  refine ⟨hfits h, fun hlarge => ?_, fun f fs hf hfs => hf.mem_features hfs, ?_⟩
  · obtain ⟨number, hnumber, hemits⟩ := h.exists_number
    obtain ⟨-, -, -, -, hz⟩ := h
    have hsigned := (signed?_of_isInteger hz hnumber).2 hlarge
    refine ⟨number.toBinary64, fun f => ?_⟩
    rw [hemits, Number.feature, hsigned]
  · intro d' i' token' z' h' hfit hfit' f f' hf hf'
    rw [(hfits h hfit f).mp hf, (hfits h' hfit' f').mp hf']
    simp

end Document

/-! ### The bounds -/

def plainToken (s : String) : Token := '"' :: s.toList ++ ['"']

def literalNode (token : Token) : ParseTree :=
  .object [(plainToken "type", .string (plainToken "Literal")),
    (plainToken "value", .number token)]

/-- A document in list form whose only statement is a literal with a number. -/
def literalSource (token : Token) : ParseTree :=
  .array [.string (plainToken "Program"), .array [literalNode token],
    .string (plainToken ""), .array [.number ['0'], .number ['0']], .array [], .array []]

def literalText (token : Token) : String := String.ofList (literalSource token).tokens.flatten

theorem lexical_literalSource {token : Token} (h : IsNumber token) :
    (literalSource token).Lexical := by
  have hname : IsString (plainToken "Program") := isString_of_plain (by simp)
  have htype : IsString (plainToken "type") := isString_of_plain (by simp)
  have hkind : IsString (plainToken "Literal") := isString_of_plain (by simp)
  have hvalue : IsString (plainToken "value") := isString_of_plain (by simp)
  have hempty : IsString (plainToken "") := isString_of_plain (by simp)
  have hzero : IsNumber ['0'] := .mk (.inl rfl) (.inl rfl) (.inl rfl) (.inl rfl)
  have hnode : (literalNode token).Lexical :=
    .object (by simp [htype, hvalue]) (by simp [Lexical.string hkind, Lexical.number h])
  refine .array ?_
  simp [Lexical.string hname, Lexical.string hempty, Lexical.array, Lexical.number hzero, hnode]

theorem documentNodes_literalSource (token : Token) :
    (literalSource token).documentNodes = [literalNode token] := by
  have hbody : (literalSource token).place? Descriptor.placeNames "body" =
      some (.array [literalNode token]) := rfl
  have hkind : (literalNode token).kind?.isSome = true := rfl
  have hparts : (literalNode token).parts = [] := rfl
  rw [documentNodes, hbody]
  simp only [statementNodes, List.filter_singleton, hkind, cond_true, List.flatMap_singleton,
    nodes_eq, hparts, List.flatMap_nil]

def numberDescriptor (n : Number) : Descriptor :=
  ⟨"Program", [.object [("type", .string "Literal"), ("value", .number n)]], "", (0, 0), [], [], []⟩

namespace Document

def ofInteger {token : Token} {z : ℤ} (h : IsInteger token z) {n : Number}
    (hread : Descriptor.read (literalText token) = .ok (numberDescriptor n)) : Document where
  text := literalText token
  source := literalSource token
  descriptor := numberDescriptor n
  lexical := lexical_literalSource h.isNumber
  isText := Descriptor.isText_flatten _
  read := hread

theorem writesInteger_ofInteger {token : Token} {z : ℤ} (h : IsInteger token z) {n : Number}
    (hread : Descriptor.read (literalText token) = .ok (numberDescriptor n)) :
    (ofInteger h hread).WritesInteger 0 token z := by
  refine ⟨literalNode token, ?_, rfl, rfl, h⟩
  change (literalSource token).documentNodes[0]? = _
  rw [documentNodes_literalSource]
  rfl

end Document

def largestDigits : Token :=
  ['9', '2', '2', '3', '3', '7', '2', '0', '3', '6', '8', '5', '4', '7', '7', '5', '8',
    '0', '7']

def unsignedDigits : Token :=
  ['1', '8', '4', '4', '6', '7', '4', '4', '0', '7', '3', '7', '0', '9', '5', '5', '1',
    '6', '1', '5']

theorem isInteger_largest : IsInteger largestDigits 9223372036854775807 :=
  .unsigned (.inr ⟨_, _, rfl, by decide, by simp [Digits, largestDigits]⟩)

theorem isInteger_unsigned : IsInteger unsignedDigits 18446744073709551615 :=
  .unsigned (.inr ⟨_, _, rfl, by decide, by simp [Digits, unsignedDigits]⟩)

theorem isInteger_minusOne : IsInteger ['-', '1'] (-1) :=
  .negative (.inr ⟨'1', [], rfl, by decide, by simp [Digits]⟩)

theorem read_largest : Descriptor.read (literalText largestDigits) =
    .ok (numberDescriptor (.integer 9223372036854775807)) := by
  rfl

theorem read_unsigned : Descriptor.read (literalText unsignedDigits) =
    .ok (numberDescriptor (.integer 18446744073709551615)) := by
  rfl

theorem read_minusOne :
    Descriptor.read (literalText ['-', '1']) = .ok (numberDescriptor (.integer (-1))) := by
  rfl

namespace Document

def largest : Document := .ofInteger isInteger_largest read_largest

def unsigned : Document := .ofInteger isInteger_unsigned read_unsigned

def minusOne : Document := .ofInteger isInteger_minusOne read_minusOne

/-- An integer whose 64 bits are those of minus one is a double. -/
theorem emits_iff_bounds :
    (∀ f, largest.Emits 0 f ↔ f = ⟨"Int", .integer 9223372036854775807⟩) ∧
    (∀ f, minusOne.Emits 0 f ↔ f = ⟨"Int", .integer (-1)⟩) ∧
    (∃ y, ∀ f, unsigned.Emits 0 f ↔ f = ⟨"Numeric", .double y⟩) ∧
    ∀ f f', largest.Emits 0 f → minusOne.Emits 0 f' → f ≠ f' := by
  have hlargest : largest.WritesInteger 0 largestDigits 9223372036854775807 :=
    writesInteger_ofInteger _ _
  have hunsigned : unsigned.WritesInteger 0 unsignedDigits 18446744073709551615 :=
    writesInteger_ofInteger _ _
  have hminusOne : minusOne.WritesInteger 0 ['-', '1'] (-1) := writesInteger_ofInteger _ _
  have hfits : FitsSigned largestDigits 9223372036854775807 := by decide
  have hfits' : FitsSigned ['-', '1'] (-1) := by decide
  refine ⟨hlargest.emits_iff.1 hfits, hminusOne.emits_iff.1 hfits',
    hunsigned.emits_iff.2.1 (by decide), fun f f' hf hf' heq => ?_⟩
  have hequal := (hlargest.emits_iff.2.2.2 _ _ _ _ hminusOne hfits hfits' f f' hf hf').mp heq
  contradiction

end Document

end ScriptFeatures
