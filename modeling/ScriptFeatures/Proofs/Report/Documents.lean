import ScriptFeatures.Proofs.Feature.Frequency
import ScriptFeatures.Proofs.Json.Sequence
import ScriptFeatures.Proofs.Report.Contents

/-!
Reports as JSON and how they are read back. A report without doubles whose
counts fit 64 bits is kept as it is printed, in three containers one in another
(`Report.keeps`). A printed report ends in a brace, so a line break is put behind
each of them, and a list of reports is read back document by document.
-/

namespace ScriptFeatures

open Json

/-- A value that JSON keeps as it is: not a double, and an integer has 64 bits
with a sign. -/
def FeatureValue.Exact : FeatureValue → Prop
  | .integer n => -0x8000000000000000 ≤ n ∧ n < 0x8000000000000000
  | .double _ => False
  | .string _ | .bool _ | .null => True

theorem FeatureValue.Exact.isScalar {v : FeatureValue} (h : v.Exact) : v.toJson.IsScalar := by
  cases v with
  | string s => trivial
  | integer n =>
    obtain ⟨hlow, hhigh⟩ := h
    exact ⟨hlow, by omega⟩
  | double x => exact h.elim
  | bool b => trivial
  | null => trivial

/-- Frequencies that a report keeps as they are. -/
structure Frequencies.Reportable (m : Frequencies) : Prop where
  total_lt : m.total < 0x10000000000000000
  count_lt : ∀ f ∈ m.distinct.toList, m.count f < 0x10000000000000000
  values : ∀ f ∈ m.distinct.toList, f.value.Exact

theorem Frequencies.reportable_ofList {fs : List Feature}
    (hlength : fs.length < 0x10000000000000000) (hvalues : ∀ f ∈ fs, f.value.Exact) :
    (ofList fs).Reportable where
  total_lt := by rwa [total_ofList]
  count_lt f _ := by
    rw [count_ofList]
    exact Nat.lt_of_le_of_lt List.count_le_length hlength
  values f hf := by
    rw [(indexed_ofList fs).mem_distinct, count_ofList, List.count_pos_iff] at hf
    exact hvalues f hf

/-! ### One report -/

theorem keeps_natural {n : Nat} (hn : n < 0x10000000000000000) (room : Option Nat)
    (width : String) : Shape.Keeps room (.natural width) (natural n) := by
  refine .scalar ⟨by omega, by omega⟩ ?_
  rw [natural, Shape.accept, if_pos (Int.natCast_nonneg n)]

theorem FeatureCount.keeps {c : FeatureCount} (hvalue : c.value.IsScalar)
    (hcount : c.count < 0x10000000000000000) : Shape.Keeps (some 1) shape c.toJson := by
  refine @Shape.Keeps.record (some 0) _ _ _ _ (by simp) (by rfl) ?_
  simp only [List.append_nil, List.lookup_cons, List.forall_mem_cons, List.not_mem_nil,
    false_implies, implies_true, and_true, BEq.rfl, String.reduceBEq, Option.some.injEq, forall_eq']
  exact ⟨.scalar trivial rfl, .scalar hvalue rfl, keeps_natural hcount _ _⟩

theorem Report.keeps {r : Report} (htotal : r.total < 0x10000000000000000)
    (hfeatures : ∀ c ∈ r.features, c.value.IsScalar ∧ c.count < 0x10000000000000000) :
    Shape.Keeps (some 3) shape r.toJson := by
  have hlist : Shape.Keeps (some 2) (.list FeatureCount.shape)
      (.array (r.features.map FeatureCount.toJson)) := by
    refine @Shape.Keeps.list (some 1) _ _ _ rfl (List.forall_mem_map.mpr fun c hc => ?_)
    exact FeatureCount.keeps (hfeatures c hc).1 (hfeatures c hc).2
  refine @Shape.Keeps.record (some 2) _ _ _ _ (by simp) (by rfl) ?_
  simp only [List.append_nil, List.lookup_cons, List.forall_mem_cons, List.not_mem_nil,
    false_implies, implies_true, and_true, BEq.rfl, String.reduceBEq, Option.some.injEq, forall_eq']
  exact ⟨.scalar trivial rfl, keeps_natural htotal _ _, hlist⟩

theorem Frequencies.Reportable.keeps {m : Frequencies} (h : m.Reportable) (file : String) :
    Shape.Keeps (some 3) Report.shape (Report.of file m).toJson := by
  refine Report.keeps h.total_lt fun c hc => ?_
  obtain ⟨e, he, rfl⟩ := List.mem_map.mp hc
  obtain ⟨f, hf, rfl⟩ := List.mem_map.mp he
  exact ⟨(h.values f hf).isScalar, h.count_lt f hf⟩

theorem natural?_natural (n : Nat) : (natural n).natural? = some n := by
  rw [natural, Value.natural?, Number.natural?, if_pos (Int.natCast_nonneg n), Int.toNat_natCast]

theorem FeatureCount.ofJson_toJson (c : FeatureCount) : ofJson c.toJson = c := by
  simp [ofJson, toJson, Value.members, Members.get?, List.lookup_cons, Value.string?,
    natural?_natural]

theorem Report.ofJson_toJson (r : Report) : ofJson r.toJson = r := by
  have hfeatures : (FeatureCount.ofJson ∘ FeatureCount.toJson) = id :=
    funext FeatureCount.ofJson_toJson
  simp [ofJson, toJson, Value.members, Members.get?, List.lookup_cons, Value.string?, Value.items,
    natural?_natural, hfeatures]

/-! ### Reports in a row -/

namespace ReportFormat

theorem endLine_eq (cs : List Char) :
    ∃ blank, (∀ c ∈ blank, c ∈ spaces) ∧ endLine cs = cs ++ blank := by
  rw [endLine]
  split
  · exact ⟨[], by simp, (List.append_nil cs).symm⟩
  · exact ⟨['\n'], by simp [spaces], rfl⟩

theorem exists_endLine_eq (cs : List Char) : ∃ line, endLine cs = line ++ ['\n'] := by
  rw [endLine]
  split
  · next h => exact ⟨cs.dropLast, (List.dropLast_append_getLast? '\n' h).symm⟩
  · exact ⟨cs, rfl⟩

theorem exists_renderAll_eq (format : ReportFormat) {rs : List Report} (h : rs ≠ []) :
    ∃ lines, format.renderAll rs = lines ++ ['\n'] := by
  obtain ⟨line, hline⟩ := exists_endLine_eq (format.render (rs.getLast h))
  refine ⟨format.renderAll rs.dropLast ++ line, ?_⟩
  rw [List.append_assoc, ← hline]
  conv_lhs => rw [← List.dropLast_append_getLast h]
  simp [renderAll]

def reports (sources : List (String × Frequencies)) : List Report :=
  sources.map fun s => Report.of s.1 s.2

variable {limit : Option Nat} {sources : List (String × Frequencies)}

theorem readAll_renderAll {shape : Shape} {rs : List Report} (hlimit : ∀ n ∈ limit, 3 ≤ n)
    (h : ∀ r ∈ rs, Shape.Keeps (some 3) shape r.toJson) :
    Json.readAll limit shape (String.ofList (json.renderAll rs)) = .ok (rs.map Report.toJson) := by
  have hroom : Reader.Room limit [] (some 3) := fun n hn => ⟨3, rfl, by simpa using hlimit n hn⟩
  let documents := rs.map fun r => (endLine (json.render r), r.toJson)
  have hdocuments : ∀ d ∈ documents, Reader.IsDocument limit shape d.1 d.2 := by
    intro d hd
    obtain ⟨r, hr, rfl⟩ := List.mem_map.mp hd
    obtain ⟨blank, hblank, heq⟩ := endLine_eq (json.render r)
    rw [heq]
    exact Reader.isDocument_pretty (h r hr) hroom id 0 hblank
  have htext : documents.flatMap Prod.fst = json.renderAll rs := by
    rw [renderAll, List.flatMap_map]
  have hvalues : documents.map Prod.snd = rs.map Report.toJson := List.map_map ..
  rw [Json.readAll, String.toList_ofList, ← htext, Reader.readAllFrom_documents hdocuments, hvalues]

theorem showsAll_reports (sources : List (String × Frequencies)) :
    List.Forall₂ (fun r s => r.Shows s.1 s.2) (reports sources) sources := by
  simp only [Report.shows_iff]
  rw [reports, List.forall₂_map_left_iff]
  exact List.forall₂_same.mpr fun s _ => rfl

/-- The text of some reports as JSON is one document for each of them, and what
is decoded from it shows, in the same order, the files, the totals and the
features of the sources with their contexts, values and counts, whatever texts
they hold. It is empty if there are none, and else it ends in a line break. -/
theorem json_lossless (hlimit : ∀ n ∈ limit, 3 ≤ n) (h : ∀ s ∈ sources, s.2.Reportable) :
    let text := String.ofList (json.renderAll (reports sources))
    (∃ documents, Json.readAll limit .any text = .ok documents ∧
      documents.length = sources.length) ∧
    (∃ decoded, Report.readAll limit text = .ok decoded ∧
      List.Forall₂ (fun r s => r.Shows s.1 s.2) decoded sources) ∧
    (text = "" ↔ sources = []) ∧ (sources ≠ [] → ∃ lines, text = lines ++ "\n") := by
  intro text
  have hkeeps : ∀ r ∈ reports sources, Shape.Keeps (some 3) Report.shape r.toJson :=
    List.forall_mem_map.mpr fun s hs => (h s hs).keeps s.1
  have hdocuments := readAll_renderAll hlimit fun r hr => (hkeeps r hr).any
  have hdecoded : Report.readAll limit text = .ok (reports sources) := by
    have hofJson : Report.ofJson ∘ Report.toJson = id := funext Report.ofJson_toJson
    rw [Report.readAll, readAll_renderAll hlimit hkeeps]
    simp [hofJson]
  have hends (hne : sources ≠ []) : ∃ lines, text = lines ++ "\n" := by
    have hreports : reports sources ≠ [] := mt List.map_eq_nil_iff.mp hne
    obtain ⟨lines, hlines⟩ := exists_renderAll_eq json hreports
    refine ⟨String.ofList lines, ?_⟩
    simp [text, hlines, String.ofList_append]
  refine ⟨⟨_, hdocuments, ?_⟩, ⟨_, hdecoded, showsAll_reports sources⟩, ⟨fun htext => ?_, ?_⟩, hends⟩
  · rw [List.length_map, reports, List.length_map]
  · by_contra hne
    obtain ⟨lines, hlines⟩ := hends hne
    simp [htext] at hlines
  · rintro rfl
    rfl

/-- A text with characters that JSON escapes. -/
def oddText : String := "\"\\\n\x01\x7d\x7b"

def oddFeatures : List Feature :=
  [⟨"String", .string oddText⟩, ⟨"Int", .integer (-0x8000000000000000)⟩, ⟨"Null", .null⟩,
    ⟨"String", .string oddText⟩]

theorem distinct_oddFeatures : (Frequencies.ofList oddFeatures).distinct =
    #[⟨"String", .string oddText⟩, ⟨"Int", .integer (-0x8000000000000000)⟩, ⟨"Null", .null⟩] := by
  simp [oddFeatures, Frequencies.ofList, Frequencies.add, Frequencies.count, Frequencies.empty,
    Std.HashMap.getD_insert]

/-- A source of the odd text and the least integer, and one without features. -/
def oddSources : List (String × Frequencies) := [(oddText, .ofList oddFeatures), ("", .ofList [])]

theorem json_lossless_oddSources :
    let text := String.ofList (json.renderAll (reports oddSources))
    (∃ documents, Json.readAll (some 127) .any text = .ok documents ∧ documents.length = 2) ∧
      Report.readAll (some 127) text = .ok
        [⟨oddText, 4, [⟨"String", .string oddText, 2⟩,
          ⟨"Int", .number (.integer (-0x8000000000000000)), 1⟩, ⟨"Null", .null, 1⟩]⟩,
        ⟨"", 0, []⟩] ∧
      ∃ lines, text = lines ++ "\n" := by
  have hlimit : ∀ n ∈ some 127, 3 ≤ n := by simp
  have hsources : ∀ s ∈ oddSources, s.2.Reportable := by
    simp only [oddSources, List.forall_mem_cons, List.not_mem_nil, false_implies, implies_true,
      and_true]
    refine ⟨Frequencies.reportable_ofList (by decide) ?_,
      Frequencies.reportable_ofList (by decide) (by simp)⟩
    simp [oddFeatures, FeatureValue.Exact]
  obtain ⟨hdocuments, ⟨decoded, hdecoded, hshows⟩, -, hends⟩ := json_lossless hlimit hsources
  refine ⟨hdocuments, ?_, hends (List.cons_ne_nil _ _)⟩
  rw [hdecoded]
  simp only [oddSources, List.forall₂_cons_right_iff, List.forall₂_nil_right_iff,
    Report.shows_iff] at hshows
  obtain ⟨first, rest, rfl, ⟨second, _, rfl, rfl, rfl⟩, rfl⟩ := hshows
  have hnone : (Frequencies.ofList []).distinct = #[] := rfl
  have hcounts : oddFeatures.length = 4 ∧ oddFeatures.count ⟨"String", .string oddText⟩ = 2 ∧
      oddFeatures.count ⟨"Int", .integer (-0x8000000000000000)⟩ = 1 ∧
      oddFeatures.count ⟨"Null", .null⟩ = 1 := by
    simp [oddFeatures]
  simp [Report.of, FeatureCount.of, FeatureValue.toJson, Frequencies.toList,
    Frequencies.total_ofList, Frequencies.count_ofList, distinct_oddFeatures, hnone, hcounts]

end ReportFormat

end ScriptFeatures
