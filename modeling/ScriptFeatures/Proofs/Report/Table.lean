import ScriptFeatures.Report
import ScriptFeatures.Proofs.Feature.Emission

/-!
The table of some reports and what can be read from it. Contexts, cells and
counts hold no tab and no line break, so the lines of a table and the columns of
a line can be told apart, and a line begins a report if it has one tab. Escaped
texts can be read back, and the context of a feature says how to read its cell:
reports of extracted features with one table count the same.
-/

namespace ScriptFeatures

open Json Decimal

def Plain (cs : List Char) : Prop := ∀ c ∈ cs, c ≠ '\t' ∧ c ≠ '\n'

theorem Plain.tab {cs : List Char} (h : Plain cs) : '\t' ∉ cs := fun hc => (h _ hc).1 rfl

theorem Plain.lineBreak {cs : List Char} (h : Plain cs) : '\n' ∉ cs := fun hc => (h _ hc).2 rfl

theorem plain_of_digits {cs : List Char} (h : Digits cs) : Plain cs :=
  fun _ hc => ⟨h.ne hc rfl, h.ne hc rfl⟩

theorem plain_natText (n : ℕ) : Plain (natText n) := plain_of_digits (digits_decimalDigits n)

theorem append_cons_inj {α : Type} {sep : α} {xs ys rest rest' : List α} (hx : sep ∉ xs)
    (hy : sep ∉ ys) (h : xs ++ sep :: rest = ys ++ sep :: rest') : xs = ys ∧ rest = rest' := by
  induction xs generalizing ys with
  | nil =>
    cases ys with
    | nil => exact ⟨rfl, (List.cons.inj h).2⟩
    | cons y ys => exact absurd (List.cons.inj h).1 (List.ne_of_not_mem_cons hy)
  | cons x xs ih =>
    cases ys with
    | nil => exact absurd (List.cons.inj h).1.symm (List.ne_of_not_mem_cons hx)
    | cons y ys =>
      obtain ⟨rfl, hrest⟩ := List.cons.inj h
      obtain ⟨rfl, rfl⟩ :=
        ih (List.not_mem_of_not_mem_cons hx) (List.not_mem_of_not_mem_cons hy) hrest
      exact ⟨rfl, rfl⟩

/-! ### Cells -/

theorem plain_escapeCell (c : Char) : Plain (escapeCell c) := by
  unfold escapeCell
  split
  · simp [Plain]
  · simp [Plain]
  · simp [Plain]
  · simp [Plain]
  · next htab hbreak _ =>
    intro d hd
    rw [List.mem_singleton.mp hd]
    exact ⟨htab, hbreak⟩

/-- The character that an escape stands for. -/
def readEscape (c : Char) : Char :=
  match c with
  | 't' => '\t'
  | 'n' => '\n'
  | 'r' => '\r'
  | _ => c

/-- A text without its escapes. -/
def readCell : List Char → List Char
  | [] => []
  | '\\' :: c :: cs => readEscape c :: readCell cs
  | c :: cs => c :: readCell cs

theorem readCell_escapeCell (c : Char) (cs : List Char) :
    readCell (escapeCell c ++ cs) = c :: readCell cs := by
  unfold escapeCell
  split
  · rfl
  · rfl
  · rfl
  · rfl
  · next hbackslash _ _ _ =>
    rw [List.singleton_append, readCell]
    exact fun _ _ hc _ => hbackslash hc

theorem readCell_flatMap (cs : List Char) : readCell (cs.flatMap escapeCell) = cs := by
  induction cs with
  | nil => rfl
  | cons c cs ih => rw [List.flatMap_cons, readCell_escapeCell, ih]

def replaceEach (c : Char) (escape cs : List Char) : List Char :=
  cs.flatMap fun d => if d = c then escape else [d]

/-- Escaping character by character comes to replacing backslashes in the whole
text, then tabs, line breaks and carriage returns. -/
theorem flatMap_escapeCell_eq (cs : List Char) :
    cs.flatMap escapeCell =
      replaceEach '\r' ['\\', 'r'] (replaceEach '\n' ['\\', 'n']
        (replaceEach '\t' ['\\', 't'] (replaceEach '\\' ['\\', '\\'] cs))) := by
  simp only [replaceEach, List.flatMap_assoc]
  congr 1
  funext c
  unfold escapeCell
  split
  · rfl
  · rfl
  · rfl
  · rfl
  · next hbackslash htab hbreak hreturn =>
    rw [if_neg hbackslash, List.flatMap_singleton, if_neg htab, List.flatMap_singleton,
      if_neg hbreak, List.flatMap_singleton, if_neg hreturn]

theorem plain_integerText (n : ℤ) : Plain (integerText n) := by
  have hdigits := plain_of_digits (digits_decimalDigits n.natAbs)
  rw [integerText]
  split
  · intro c hc
    rcases List.mem_cons.mp hc with rfl | hc
    · decide
    · exact hdigits c hc
  · exact hdigits

theorem plain_numberText {x : Binary64} (hx : x.isFinite = true) : Plain (numberLayout.text x) := by
  intro c hc
  have hnumeral := numberLayout.isNumeral_of_mem_text hx hc
  constructor <;> (rintro rfl; simp [IsNumeral] at hnumeral)

/-- Whatever a value is, its cell keeps within its column and line. -/
theorem plain_valueCell {v : FeatureValue} (hv : v.Finite) : Plain (valueCell v.toJson) := by
  cases v with
  | string s =>
    intro c hc
    obtain ⟨d, -, hc⟩ := List.mem_flatMap.mp hc
    exact plain_escapeCell d c hc
  | integer n => exact plain_integerText n
  | double x =>
    have hx : x.isFinite = true := hv
    rw [FeatureValue.toJson, if_pos hx]
    exact plain_numberText hx
  | bool b => cases b <;> simp [Plain, FeatureValue.toJson, valueCell, Value.compact, wordText]
  | null => simp [Plain, FeatureValue.toJson, valueCell, Value.compact]

theorem integerText_inj {m n : ℤ} (h : integerText m = integerText n) : m = n := by
  have hsign (k l : ℤ) (hkl : '-' :: decimalDigits k.natAbs = decimalDigits l.natAbs) : False := by
    have hdigit := isDigit_of_mem_decimalDigits (n := l.natAbs) (hkl ▸ List.mem_cons_self)
    contradiction
  simp only [integerText] at h
  split at h <;> split at h
  · have habs := decimalDigits_inj (List.cons.inj h).2
    omega
  · exact (hsign m n h).elim
  · exact (hsign n m h.symm).elim
  · have habs := decimalDigits_inj h
    omega

theorem eq_of_valueCell_eq {v w : FeatureValue} (hrank : v.rank = w.rank) (hv : v.Finite)
    (hw : w.Finite) (h : valueCell v.toJson = valueCell w.toJson) : v = w := by
  cases v <;> cases w <;> simp [FeatureValue.rank] at hrank
  case string.string s t =>
    have hread := congrArg readCell h
    simp only [FeatureValue.toJson, valueCell, readCell_flatMap] at hread
    exact congrArg _ (String.toList_injective hread)
  case integer.integer => exact congrArg _ (integerText_inj h)
  case double.double x y =>
    have hx : x.isFinite = true := hv
    have hy : y.isFinite = true := hw
    rw [FeatureValue.toJson, if_pos hx, FeatureValue.toJson, if_pos hy] at h
    exact congrArg _ (numberLayout.text_inj hx hy h)
  case bool.bool b c =>
    cases b <;> cases c <;> first | rfl | exact absurd h (by decide)
  case null.null => rfl

/-! ### Lines -/

def endLines (lines : List (List Char)) : List Char := lines.flatMap (· ++ ['\n'])

theorem Feature.Emitted.plain_context {f : Feature} (h : f.Emitted) : Plain f.context.toList := by
  cases h with
  | text h s =>
    cases h with
    | category c => cases c <;> simp [Category.name, Plain]
    | string => simp [LiteralType.name, Plain]
    | regex => simp [LiteralType.name, Plain]
  | integer | double | bool | null => simp [LiteralType.name, Plain]

/-- What a line of a table says. -/
inductive TableLine
  | total (n : ℕ)
  | count (f : Feature) (n : ℕ)

namespace TableLine

def text : TableLine → List Char
  | .total n => ['t', 'o', 't', 'a', 'l', '\t'] ++ natText n
  | .count f n => f.context.toList ++ '\t' :: (valueCell f.value.toJson ++ '\t' :: natText n)

/-- A line about a feature that was extracted. -/
def Emitted : TableLine → Prop
  | .total _ => True
  | .count f _ => f.Emitted

def tabs : TableLine → ℕ
  | .total _ => 1
  | .count .. => 2

variable {l l' : TableLine}

theorem count_tab (h : l.Emitted) : l.text.count '\t' = l.tabs := by
  cases l with
  | total n =>
    have hcount := List.count_eq_zero.mpr (plain_natText n).tab
    simp [text, tabs, hcount]
  | count f n =>
    have hcontext := List.count_eq_zero.mpr (Feature.Emitted.plain_context h).tab
    have hvalue := List.count_eq_zero.mpr (plain_valueCell (Feature.Emitted.finite h)).tab
    have hcount := List.count_eq_zero.mpr (plain_natText n).tab
    simp [text, tabs, hcontext, hvalue, hcount]

theorem lineBreak_not_mem (h : l.Emitted) : '\n' ∉ l.text := by
  cases l with
  | total n => simp [text, (plain_natText n).lineBreak]
  | count f n =>
    simp [text, (Feature.Emitted.plain_context h).lineBreak,
      (plain_valueCell (Feature.Emitted.finite h)).lineBreak, (plain_natText n).lineBreak]

theorem natText_inj {m n : ℕ} (h : natText m = natText n) : m = n := decimalDigits_inj h

theorem eq_of_text_eq (h : l.Emitted) (h' : l'.Emitted) (htext : l.text = l'.text) : l = l' := by
  have htabs : l.tabs = l'.tabs := by rw [← count_tab h, ← count_tab h', htext]
  cases l <;> cases l' <;> simp [tabs] at htabs
  case total.total m n =>
    exact congrArg _ (natText_inj (List.append_cancel_left htext))
  case count.count f m g n =>
    have hf : f.Emitted := h
    have hg : g.Emitted := h'
    obtain ⟨hcontext, hrest⟩ := append_cons_inj hf.plain_context.tab hg.plain_context.tab htext
    obtain ⟨hvalue, hcount⟩ :=
      append_cons_inj (plain_valueCell hf.finite).tab (plain_valueCell hg.finite).tab hrest
    have hcontext := String.toList_injective hcontext
    have hrank : f.value.rank = g.value.rank := by rw [hf.rank_eq, hg.rank_eq, hcontext]
    have hvalue := eq_of_valueCell_eq hrank hf.finite hg.finite hvalue
    obtain ⟨context, value⟩ := f
    obtain ⟨context', value'⟩ := g
    cases hcontext
    cases hvalue
    rw [natText_inj hcount]

theorem endLines_inj {ls ls' : List TableLine} (h : ∀ l ∈ ls, l.Emitted)
    (h' : ∀ l ∈ ls', l.Emitted) (heq : endLines (ls.map text) = endLines (ls'.map text)) :
    ls = ls' := by
  induction ls generalizing ls' with
  | nil =>
    cases ls' with
    | nil => rfl
    | cons l ls' => simp [endLines] at heq
  | cons l ls ih =>
    cases ls' with
    | nil => simp [endLines] at heq
    | cons l' ls' =>
      have hl := h l List.mem_cons_self
      have hl' := h' l' List.mem_cons_self
      simp only [endLines, List.map_cons, List.flatMap_cons, List.append_assoc,
        List.singleton_append] at heq
      obtain ⟨htext, hrest⟩ := append_cons_inj (lineBreak_not_mem hl) (lineBreak_not_mem hl') heq
      rw [eq_of_text_eq hl hl' htext, ih (fun m hm => h m (List.mem_cons_of_mem l hm))
        (fun m hm => h' m (List.mem_cons_of_mem l' hm)) hrest]

end TableLine

/-! ### Tables -/

namespace Frequencies

/-- The lines of a report. -/
def tableLines (m : Frequencies) : List TableLine :=
  .total m.total :: m.toList.map fun e => .count e.1 e.2

theorem line_of (f : Feature) (n : ℕ) :
    (FeatureCount.of f n).line = (TableLine.count f n).text ++ ['\n'] := by
  simp only [FeatureCount.line, FeatureCount.of, TableLine.text, List.append_assoc,
    List.cons_append]

theorem table_eq (file : String) (m : Frequencies) :
    (Report.of file m).table = endLines (m.tableLines.map TableLine.text) := by
  have htable : (Report.of file m).table = "total\t".toList ++ natText m.total ++
      '\n' :: (m.toList.map fun e => FeatureCount.of e.1 e.2).flatMap FeatureCount.line := rfl
  have hheader : "total\t".toList = ['t', 'o', 't', 'a', 'l', '\t'] := by simp
  simp only [htable, hheader, tableLines, endLines, List.map_cons, List.flatMap_cons, List.map_map,
    List.flatMap_map, Function.comp_def, line_of, TableLine.text, List.append_assoc,
    List.singleton_append]

theorem Extracted.emitted_tableLines {m : Frequencies} (h : m.Extracted) :
    ∀ l ∈ m.tableLines, l.Emitted := by
  intro l hl
  rcases List.mem_cons.mp hl with rfl | hl
  · trivial
  · obtain ⟨e, he, rfl⟩ := List.mem_map.mp hl
    obtain ⟨f, hf, rfl⟩ := List.mem_map.mp he
    exact h.emitted (h.indexed.mem_distinct.mp hf)

end Frequencies

/-- The reports that some lines are of: each begins with its total. Lines in
front of the first total are of no report. -/
def regroup : List TableLine → List (Feature × ℕ) × List (ℕ × List (Feature × ℕ))
  | [] => ([], [])
  | .count f n :: ls => ((f, n) :: (regroup ls).1, (regroup ls).2)
  | .total n :: ls => ([], (n, (regroup ls).1) :: (regroup ls).2)

theorem regroup_append (entries : List (Feature × ℕ)) (ls : List TableLine) :
    regroup ((entries.map fun e => .count e.1 e.2) ++ ls) =
      (entries ++ (regroup ls).1, (regroup ls).2) := by
  induction entries with
  | nil => rfl
  | cons e entries ih => rw [List.map_cons, List.cons_append, regroup, ih]; rfl

theorem regroup_flatMap (rs : List (String × Frequencies)) :
    regroup (rs.flatMap fun r => r.2.tableLines) =
      ([], rs.map fun r => (r.2.total, r.2.toList)) := by
  induction rs with
  | nil => rfl
  | cons r rs ih =>
    rw [List.flatMap_cons, Frequencies.tableLines, List.cons_append, regroup, regroup_append, ih,
      List.append_nil, List.map_cons]

namespace ReportFormat

theorem endLine_endLines {lines : List (List Char)} (h : lines ≠ []) :
    endLine (endLines lines) = endLines lines := by
  have hlast : (endLines lines).getLast? = some '\n' := by
    rw [← List.dropLast_concat_getLast h]
    simp [endLines]
  rw [endLine, if_pos hlast]

/-- The tables of the reports on some sources. -/
def tables (rs : List (String × Frequencies)) : List Char :=
  table.renderAll (rs.map fun r => Report.of r.1 r.2)

theorem tables_eq (rs : List (String × Frequencies)) :
    tables rs = endLines ((rs.flatMap fun r => r.2.tableLines).map TableLine.text) := by
  have hrender (r : String × Frequencies) :
      endLine (table.render (Report.of r.1 r.2)) =
        endLines (r.2.tableLines.map TableLine.text) := by
    rw [render, Frequencies.table_eq, endLine_endLines (by simp [Frequencies.tableLines])]
  simp only [tables, renderAll, List.flatMap_map, hrender, endLines, List.flatMap_assoc,
    List.map_flatMap]

/-- The lines of one table: a header with one tab, and behind it a line with
two tabs for each distinct feature. -/
structure IsTable (m : Frequencies) (lines : List (List Char)) : Prop where
  unbroken : ∀ l ∈ lines, '\n' ∉ l
  columns : ∃ header body, lines = header :: body ∧ header.count '\t' = 1 ∧
    body.length = m.size ∧ ∀ l ∈ body, l.count '\t' = 2

theorem isTable_tableLines {m : Frequencies} (h : m.Extracted) :
    IsTable m (m.tableLines.map TableLine.text) where
  unbroken l hl := by
    obtain ⟨line, hline, rfl⟩ := List.mem_map.mp hl
    exact TableLine.lineBreak_not_mem (h.emitted_tableLines line hline)
  columns := by
    refine ⟨_, _, rfl, TableLine.count_tab trivial, by simp [Frequencies.toList, Frequencies.size],
      fun l hl => ?_⟩
    obtain ⟨line, hline, rfl⟩ := List.mem_map.mp hl
    have hemitted := h.emitted_tableLines line (List.mem_cons_of_mem _ hline)
    obtain ⟨e, -, rfl⟩ := List.mem_map.mp hline
    exact TableLine.count_tab hemitted

/-- The tables of extracted sources are lines, for each source a table of its
own, and say what was counted in the sources: sources with the same tables have
the same totals and the same features with the same counts, in the same order,
whatever texts the features hold. -/
theorem tables_lossless {rs : List (String × Frequencies)} (hrs : ∀ r ∈ rs, r.2.Extracted) :
    (∃ blocks : List (List (List Char)), tables rs = endLines blocks.flatten ∧
      List.Forall₂ (fun r lines => IsTable r.2 lines) rs blocks) ∧
    ∀ rs' : List (String × Frequencies), (∀ r ∈ rs', r.2.Extracted) → tables rs = tables rs' →
      rs.map (fun r => (r.2.total, r.2.toList)) = rs'.map fun r => (r.2.total, r.2.toList) := by
  refine ⟨⟨rs.map fun r => r.2.tableLines.map TableLine.text, ?_, ?_⟩, fun rs' hrs' heq => ?_⟩
  · rw [tables_eq, List.map_flatMap, List.flatMap_def]
  · rw [List.forall₂_map_right_iff, List.forall₂_same]
    exact fun r hr => isTable_tableLines (hrs r hr)
  · have hemitted {rs : List (String × Frequencies)} (h : ∀ r ∈ rs, r.2.Extracted) :
        ∀ l ∈ rs.flatMap fun r => r.2.tableLines, l.Emitted := by
      intro l hl
      obtain ⟨r, hr, hl⟩ := List.mem_flatMap.mp hl
      exact (h r hr).emitted_tableLines l hl
    rw [tables_eq, tables_eq] at heq
    have hlines := TableLine.endLines_inj (hemitted hrs) (hemitted hrs') heq
    have hregroup := congrArg (fun ls => (regroup ls).2) hlines
    simpa only [regroup_flatMap] using hregroup

/-- The number 1 and the text `1` have one cell, and different tables. -/
theorem tables_ones :
    valueCell (.number (.integer 1)) = valueCell (.string "1") ∧
      tables [("a.js", numberOne), ("b.js", textOne)] ≠
        tables [("a.js", textOne), ("b.js", numberOne)] := by
  refine ⟨by rfl, fun heq => ?_⟩
  have hrs : ∀ r ∈ [("a.js", numberOne), ("b.js", textOne)], r.2.Extracted := by
    simp [extracted_numberOne, extracted_textOne]
  have hrs' : ∀ r ∈ [("a.js", textOne), ("b.js", numberOne)], r.2.Extracted := by
    simp [extracted_numberOne, extracted_textOne]
  have hcounts := (tables_lossless hrs).2 _ hrs' heq
  simp [Frequencies.toList, numberOne, textOne, distinct_ofList_singleton] at hcounts

end ReportFormat

end ScriptFeatures
