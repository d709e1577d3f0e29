import Std.Data.String.ToInt
import ScriptFeatures.Proofs.Decimal.Written
import ScriptFeatures.Proofs.Feature.Frequency
import ScriptFeatures.Proofs.Growth.Finite

/-!
What the features of a tree look like. The context of a feature says of which
type its value is (`Feature.Emitted`): the name of a category, of strings and of
regular expressions stands in front of texts, and each of the other literal
types in front of values of its own. So features of one context whose values
are shown alike are equal (`Feature.Emitted.eq_of_text_eq`), although the
number 1 and the text `1` are shown alike.
-/

namespace ScriptFeatures

open Decimal

/-! ### Contexts and types -/

inductive IsTextual : String → Prop
  | category (c : Category) : IsTextual c.name
  | string : IsTextual LiteralType.string.name
  | regex : IsTextual LiteralType.regex.name

/-- The features there are in trees with finite numbers. -/
inductive Feature.Emitted : Feature → Prop
  | text {context : String} (h : IsTextual context) (s : String) : Emitted ⟨context, .string s⟩
  | integer (n : Int) : Emitted ⟨LiteralType.integer.name, .integer n⟩
  | double {x : Binary64} (h : x.isFinite = true) : Emitted ⟨LiteralType.numeric.name, .double x⟩
  | bool (b : Bool) : Emitted ⟨LiteralType.bool.name, .bool b⟩
  | null : Emitted ⟨LiteralType.null.name, .null⟩

/-- The rank of the values that stand in a context. -/
def rankIn (context : String) : ℕ :=
  if context = LiteralType.integer.name then 1
  else if context = LiteralType.numeric.name then 2
  else if context = LiteralType.bool.name then 3
  else if context = LiteralType.null.name then 4
  else 0

theorem IsTextual.rankIn_eq {context : String} (h : IsTextual context) : rankIn context = 0 := by
  cases h with
  | category c => cases c <;> rfl
  | string => rfl
  | regex => rfl

/-- A value is of a type that its context says, whatever the value is. -/
theorem Feature.Emitted.rank_eq {f : Feature} (h : f.Emitted) :
    f.value.rank = rankIn f.context := by
  cases h with
  | text h s => exact h.rankIn_eq.symm
  | integer | double | bool | null => rfl

def FeatureValue.Finite : FeatureValue → Prop
  | .double x => x.isFinite = true
  | _ => True

theorem Feature.Emitted.finite {f : Feature} (h : f.Emitted) : f.value.Finite := by
  cases h with
  | double hx => exact hx
  | text | integer | bool | null => trivial

/-! ### Values that are shown alike -/

theorem FeatureValue.eq_of_text_eq {v w : FeatureValue} (hrank : v.rank = w.rank)
    (hv : v.Finite) (hw : w.Finite) (h : v.text = w.text) : v = w := by
  cases v <;> cases w <;> simp [rank] at hrank
  case string.string => exact congrArg _ h
  case integer.integer => exact congrArg _ (Int.repr_injective h)
  case double.double =>
    exact congrArg _ (displayLayout.text_inj hv hw (String.ofList_injective h))
  case bool.bool b c =>
    cases b <;> cases c <;> first | rfl | exact absurd h (by decide)
  case null.null => rfl

theorem Feature.Emitted.eq_of_text_eq {f g : Feature} (hf : f.Emitted) (hg : g.Emitted)
    (hcontext : f.context = g.context) (htext : f.value.text = g.value.text) : f = g := by
  have hrank : f.value.rank = g.value.rank := by rw [hf.rank_eq, hg.rank_eq, hcontext]
  have hvalue := FeatureValue.eq_of_text_eq hrank hf.finite hg.finite htext
  obtain ⟨context, value⟩ := f
  exact congr (congrArg Feature.mk hcontext) hvalue

/-! ### Extraction -/

namespace Tree

variable {t : Tree} {identifiers : Array (Option NodeId)} {id : NodeId} {n : Node}

theorem Finite.emitted_of_literal (ht : t.Finite) (hn : t.get? id = some n) {type : LiteralType}
    {value : FeatureValue} (h : n.literal = .ok (type, value)) :
    Feature.Emitted ⟨type.name, value⟩ := by
  rw [Node.literal] at h
  split at h
  · next found hfound =>
    obtain ⟨a, ha, hliteral⟩ := Option.bind_eq_some_iff.mp hfound
    have hfinite := ht id n hn _ _ ha
    cases h
    cases a <;> cases hliteral
    · exact .text .string _
    · exact .integer _
    · exact .double hfinite
    · exact .bool _
    · exact .null
  · split at h
    · cases h
      exact .text .regex _
    · contradiction

theorem emitted_of_namedFeature? {c : Category} {identifier : Option NodeId} {f : Feature}
    (h : t.namedFeature? n c identifier = some f) : f.Emitted := by
  simp only [namedFeature?, Option.bind_eq_bind, Option.bind_eq_some_iff, Option.pure_def,
    Option.some.injEq] at h
  obtain ⟨_, -, _, -, name, -, rfl⟩ := h
  split
  · exact .text (.category _) name
  · exact .text (.category c) name

theorem Finite.emitted_of_feature? (ht : t.Finite) (hn : t.get? id = some n) {f : Feature}
    (h : t.feature? identifiers n = .ok (some f)) : f.Emitted := by
  rw [feature?] at h
  split at h
  · cases h
  · cases h
  · split at h <;> cases h
    next hliteral => exact ht.emitted_of_literal hn hliteral
  · split at h
    · cases h
    · cases h
    · exact emitted_of_namedFeature? (Except.ok.inj h)

/-- Each feature that is added to those found before is of the type that its
context says. -/
theorem Finite.emitted_of_collect (ht : t.Finite) {ids : List NodeId} {found fs : Array Feature}
    (h : t.collect identifiers found ids = .ok fs) (hfound : ∀ f ∈ found, f.Emitted) :
    ∀ f ∈ fs, f.Emitted := by
  induction ids generalizing found with
  | nil =>
    cases h
    exact hfound
  | cons id ids ih =>
    rw [collect] at h
    split at h
    · exact ih h hfound
    · next n hn =>
      split at h
      · contradiction
      · exact ih h hfound
      · next g hg =>
        refine ih h fun f hf => ?_
        rcases Array.mem_push.mp hf with hf | rfl
        · exact hfound f hf
        · exact ht.emitted_of_feature? hn hg

theorem Finite.emitted (ht : t.Finite) {fs : Array Feature} (h : t.features = .ok fs) :
    ∀ f ∈ fs, f.Emitted :=
  ht.emitted_of_collect h fun _ hf => absurd hf (Array.not_mem_empty _)

end Tree

namespace Frequencies

/-- What was counted in a tree with finite numbers. -/
def Extracted (m : Frequencies) : Prop := ∃ t : Tree, t.Finite ∧ t.frequencies = .ok m

theorem Extracted.exists_ofList {m : Frequencies} (h : m.Extracted) :
    ∃ fs : List Feature, m = ofList fs ∧ ∀ f ∈ fs, f.Emitted := by
  obtain ⟨t, ht, hm⟩ := h
  rw [Tree.frequencies] at hm
  split at hm
  · next fs hfs =>
    cases hm
    exact ⟨fs.toList, rfl, fun f hf => ht.emitted hfs f (Array.mem_toList_iff.mp hf)⟩
  · contradiction

theorem Extracted.indexed {m : Frequencies} (h : m.Extracted) : m.Indexed := by
  obtain ⟨fs, rfl, -⟩ := h.exists_ofList
  exact indexed_ofList fs

theorem Extracted.emitted {m : Frequencies} (h : m.Extracted) {f : Feature}
    (hf : 0 < m.count f) : f.Emitted := by
  obtain ⟨fs, rfl, hfs⟩ := h.exists_ofList
  rw [count_ofList, List.count_pos_iff] at hf
  exact hfs f hf

end Frequencies

theorem Descriptor.extracted {d : Descriptor} (hd : ∀ v ∈ d.body, v.Finite) {m : Frequencies}
    (h : d.frequencies = .ok m) : m.Extracted := by
  rw [Descriptor.frequencies] at h
  split at h
  · next t ht => exact ⟨t, Descriptor.finite_of_toTree hd ht, h⟩
  · contradiction

/-! ### The number 1 and the text `1` -/

/-- A document whose only statement is a literal. -/
def literalDocument (v : Json.Value) : Descriptor :=
  ⟨"Program", [.object [("type", .string "Literal"), ("value", v)]], "script", (0, 1), [], [], []⟩

theorem extracted_literalDocument {v : Json.Value} (hv : v.Finite) {m : Frequencies}
    (h : (literalDocument v).frequencies = .ok m) : m.Extracted := by
  refine Descriptor.extracted (fun w hw => ?_) h
  obtain rfl := List.mem_singleton.mp hw
  refine .object fun member hmember => ?_
  simp only [List.mem_cons, List.not_mem_nil, or_false] at hmember
  rcases hmember with rfl | rfl
  · exact .string _
  · exact hv

theorem distinct_ofList_singleton (f : Feature) : (Frequencies.ofList [f]).distinct = #[f] := by
  simp only [Frequencies.ofList, List.foldl_cons, List.foldl_nil, Frequencies.add,
    Frequencies.count_empty, if_true]
  rfl

def numberOne : Frequencies := .ofList [⟨"Int", .integer 1⟩]

def textOne : Frequencies := .ofList [⟨"String", .string "1"⟩]

theorem extracted_numberOne : numberOne.Extracted :=
  have hinRange : (Json.Number.integer 1).InRange := ⟨by decide, by decide⟩
  extracted_literalDocument (.number hinRange.isFinite) (by with_unfolding_all rfl)

theorem extracted_textOne : textOne.Extracted :=
  extracted_literalDocument (.string "1") (by with_unfolding_all rfl)

end ScriptFeatures
