import Mathlib.Data.List.Forall2
import ScriptFeatures.Report

/-!
What reports hold, in terms of what they report on. A report names its source
or its label and holds the totals, and it has one entry for each feature, in
their order, with the context and the value of the feature and its count
(`Report.Shows`, `CorpusReport.Shows`). Nothing else shows the same.
-/

namespace ScriptFeatures

open Json

/-- The plain JSON for a value. A double that is not finite has none but null. -/
inductive FeatureValue.ShownAs : FeatureValue → Value → Prop
  | string (s : String) : ShownAs (.string s) (.string s)
  | integer (n : Int) : ShownAs (.integer n) (.number (.integer n))
  | finite {x : Decimal.Binary64} (h : x.isFinite = true) :
      ShownAs (.double x) (.number (.double x))
  | notFinite {x : Decimal.Binary64} (h : x.isFinite = false) : ShownAs (.double x) .null
  | bool (b : Bool) : ShownAs (.bool b) (.bool b)
  | null : ShownAs .null .null

theorem FeatureValue.shownAs_iff {v : FeatureValue} {j : Value} :
    v.ShownAs j ↔ j = v.toJson := by
  constructor
  · intro h
    cases h with
    | finite h => rw [toJson, if_pos h]
    | notFinite h => rw [toJson, if_neg (Bool.eq_false_iff.mp h)]
    | string _ | integer _ | bool _ | null => rfl
  · rintro rfl
    cases v with
    | string s => exact .string s
    | integer n => exact .integer n
    | double x =>
      rw [toJson]
      split
      · next h => exact .finite h
      · next h => exact .notFinite (Bool.eq_false_iff.mpr h)
    | bool b => exact .bool b
    | null => exact .null

/-- An entry for a feature that is counted so often. -/
structure FeatureCount.Shows (c : FeatureCount) (f : Feature) (n : ℕ) : Prop where
  context : c.context = f.context
  value : f.value.ShownAs c.value
  count : c.count = n

theorem FeatureCount.shows_iff {c : FeatureCount} {f : Feature} {n : ℕ} :
    c.Shows f n ↔ c = .of f n := by
  constructor
  · rintro ⟨hcontext, hvalue, hcount⟩
    rw [FeatureValue.shownAs_iff] at hvalue
    obtain ⟨context, value, count⟩ := c
    subst hcontext hvalue hcount
    rfl
  · rintro rfl
    exact ⟨rfl, FeatureValue.shownAs_iff.mpr rfl, rfl⟩

/-- Entries for some features with their counts, in the same order. -/
def ShowsAll (cs : List FeatureCount) (lines : List (Feature × ℕ)) : Prop :=
  List.Forall₂ (fun c line => c.Shows line.1 line.2) cs lines

theorem showsAll_iff {cs : List FeatureCount} {lines : List (Feature × ℕ)} :
    ShowsAll cs lines ↔ cs = lines.map fun line => .of line.1 line.2 := by
  simp only [ShowsAll, FeatureCount.shows_iff]
  rw [← List.forall₂_eq_eq_eq, List.forall₂_map_right_iff]

structure Report.Shows (r : Report) (path : String) (m : Frequencies) : Prop where
  file : r.file = path
  total : r.total = m.total
  features : ShowsAll r.features m.toList

theorem Report.shows_iff {r : Report} {path : String} {m : Frequencies} :
    r.Shows path m ↔ r = .of path m := by
  constructor
  · rintro ⟨hfile, htotal, hfeatures⟩
    rw [showsAll_iff] at hfeatures
    obtain ⟨file, total, features⟩ := r
    subst hfile htotal hfeatures
    rfl
  · rintro rfl
    exact ⟨rfl, rfl, showsAll_iff.mpr rfl⟩

/-- A report on so many sources of a label, some of which failed, with the lines
that their features were counted in. -/
structure CorpusReport.Shows (r : CorpusReport) (label : String) (sources failures : ℕ)
    (lines : List (Feature × ℕ)) : Prop where
  label : r.label = label
  files : r.files = sources
  failed : r.failed = failures
  features : ShowsAll r.features lines

end ScriptFeatures
