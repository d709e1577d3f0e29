import ScriptFeatures.Proofs.Parser.Blocks

/-!
Every text is cut in one way only. A text that has the delimiter has a leftmost
one, so it falls into a clear part, that delimiter and the text behind it, and
so on until a text without delimiter is left (`Cuts`). The parts say which text
they are the parts of, and since each of them but the last is clear, no other
parts do (`isCut_blocks`). Nothing is asked of the delimiter but that it is not
empty: it may overlap itself, and a line break in the text may stand inside it.
-/

namespace ScriptFeatures.Stream

/-! ### Characters -/

section

variable {delimiter : List Char}

/-- The parts of a text, each of them up to the leftmost delimiter of what is
left. -/
inductive Cuts (delimiter : List Char) : List Char → List (List Char) → Prop
  | last {part : List Char} (habsent : ¬ delimiter <:+: part) : Cuts delimiter part [part]
  | cons {part rest : List Char} {parts : List (List Char)} (hclear : Clear delimiter part)
    (hrest : Cuts delimiter rest parts) :
    Cuts delimiter (part ++ (delimiter ++ rest)) (part :: parts)

theorem clear_nil : Clear delimiter [] := by
  intro before after heq
  have hlength := congrArg List.length heq
  simp only [List.nil_append, List.length_append] at hlength
  exact List.eq_nil_of_length_eq_zero (by omega)

theorem Clear.cons {part : List Char} (h : Clear delimiter part) {c : Char}
    (hbegins : ¬ delimiter <+: c :: (part ++ delimiter)) : Clear delimiter (c :: part) := by
  intro before after heq
  cases before with
  | nil => exact absurd ⟨after, heq.symm⟩ hbegins
  | cons b before => exact h before after (List.cons.inj heq).2

theorem exists_clear (hne : delimiter ≠ []) {text : List Char} (h : delimiter <:+: text) :
    ∃ part rest, text = part ++ (delimiter ++ rest) ∧ Clear delimiter part := by
  induction text with
  | nil => exact absurd (List.infix_nil.mp h) hne
  | cons c text ih =>
    by_cases hbegins : delimiter <+: c :: text
    · obtain ⟨rest, hrest⟩ := hbegins
      exact ⟨[], rest, hrest.symm, clear_nil⟩
    · obtain ⟨part, rest, rfl, hclear⟩ := ih ((List.infix_cons_iff.mp h).resolve_left hbegins)
      refine ⟨c :: part, rest, rfl, hclear.cons fun hearly => hbegins (hearly.trans ?_)⟩
      rw [← List.append_assoc]
      exact List.prefix_append (c :: (part ++ delimiter)) rest

/-- Cutting goes on behind each delimiter, until there is none. -/
theorem cuts_cut (hne : delimiter ≠ []) (text : List Char) :
    Cuts delimiter text (cut delimiter 0 [] text) := by
  induction hlength : text.length using Nat.strongRecOn generalizing text with
  | ind length ih =>
    by_cases hin : delimiter <:+: text
    · obtain ⟨part, rest, rfl, hclear⟩ := exists_clear hne hin
      have hshorter : rest.length < length := by
        rw [← hlength, List.length_append, List.length_append]
        have hpos := List.length_pos_iff.mpr hne
        omega
      rw [hclear.cut_append hne]
      exact .cons hclear (ih rest.length hshorter rest rfl)
    · rw [cut_of_absent hin]
      exact .last hin

namespace Cuts

variable {text : List Char} {parts : List (List Char)}

theorem ne_nil (h : Cuts delimiter text parts) : parts ≠ [] := by
  cases h with
  | last => exact List.cons_ne_nil _ _
  | cons => exact List.cons_ne_nil _ _

theorem intercalate_eq (h : Cuts delimiter text parts) : delimiter.intercalate parts = text := by
  induction h with
  | last => exact List.intercalate_singleton
  | cons _ hrest ih =>
    obtain ⟨next, parts, rfl⟩ := List.exists_cons_of_ne_nil hrest.ne_nil
    rw [List.intercalate_cons_cons, ih, List.append_assoc]

theorem leftmost (h : Cuts delimiter text parts) :
    ∀ part ∈ parts.dropLast, Clear delimiter part := by
  induction h with
  | last => exact List.forall_mem_nil _
  | cons hclear hrest ih =>
    rw [List.dropLast_cons_of_ne_nil hrest.ne_nil]
    exact List.forall_mem_cons.mpr ⟨hclear, ih⟩

theorem absent (h : Cuts delimiter text parts) (hne : delimiter ≠ []) :
    ∀ part ∈ parts, ¬ delimiter <:+: part := by
  induction h with
  | last habsent => exact List.forall_mem_singleton.mpr habsent
  | cons hclear _ ih => exact List.forall_mem_cons.mpr ⟨hclear.absent hne, ih⟩

theorem subset (h : Cuts delimiter text parts) {part : List Char} (hpart : part ∈ parts) :
    part ⊆ text := by
  induction h with
  | last =>
    rw [List.mem_singleton.mp hpart]
    exact List.Subset.refl _
  | cons _ _ ih =>
    rcases List.mem_cons.mp hpart with rfl | hlater
    · exact List.subset_append_left _ _
    · refine List.Subset.trans (ih hlater) ?_
      exact List.Subset.trans (List.subset_append_right delimiter _) (List.subset_append_right _ _)

end Cuts

end

/-! ### Texts -/

/-- The parts join to the text, and each delimiter between them is the leftmost
one behind the one before it. -/
structure IsCut (delimiter text : String) (parts : List String) : Prop where
  ne_nil : parts ≠ []
  joined : delimiter.intercalate parts = text
  absent : ∀ part ∈ parts, ¬ delimiter.toList <:+: part.toList
  leftmost : ∀ part ∈ parts.dropLast, Clear delimiter.toList part.toList

theorem Cuts.isCut {delimiter text : String} {parts : List (List Char)}
    (hne : delimiter.toList ≠ []) (h : Cuts delimiter.toList text.toList parts) :
    IsCut delimiter text (parts.map String.ofList) where
  ne_nil := by simpa using h.ne_nil
  joined := by
    rw [← String.toList_inj, String.toList_intercalate]
    simpa using h.intercalate_eq
  absent := by simpa using h.absent hne
  leftmost := by
    rw [← List.map_dropLast]
    refine List.forall_mem_map.mpr fun part hpart => ?_
    rw [String.toList_ofList]
    exact h.leftmost part hpart

/-- Parts determine the text, and the text determines them. -/
theorem IsCut.splitOn_eq {delimiter text : String} {parts : List String}
    (hne : delimiter.toList ≠ []) (h : IsCut delimiter text parts) :
    splitOn delimiter.toList text.toList = parts.map String.toList := by
  have hparts : parts.map String.toList ≠ [] := by simpa using h.ne_nil
  have hleftmost : ∀ part ∈ (parts.map String.toList).dropLast, Clear delimiter.toList part := by
    rw [← List.map_dropLast]
    exact List.forall_mem_map.mpr h.leftmost
  have habsent : ∀ part ∈ parts.map String.toList, ¬ delimiter.toList <:+: part :=
    List.forall_mem_map.mpr h.absent
  rw [← h.joined, String.toList_intercalate]
  exact splitOn_intercalate hne hparts hleftmost (habsent _ (List.getLast_mem hparts))

/-- What the parser prints falls into the blocks of the text without its line
breaks: they join to it, none of them has a delimiter or a line break, and each
is cut off at the leftmost place. No other blocks are like that. -/
theorem isCut_blocks {delimiter : String} (hne : delimiter ≠ "") (text : String) :
    IsCut delimiter (unbroken text) (blocks text delimiter) ∧
    (∀ block ∈ blocks text delimiter, '\n' ∉ block.toList) ∧
    ∀ parts, IsCut delimiter (unbroken text) parts → parts = blocks text delimiter := by
  have hdelimiter : delimiter.toList ≠ [] := by simpa using hne
  have hcuts := cuts_cut hdelimiter (unbroken text).toList
  have hblocks : blocks text delimiter =
      (splitOn delimiter.toList (unbroken text).toList).map String.ofList := by
    rw [blocks, toList_unbroken]
  rw [← splitOn_eq_cut hdelimiter] at hcuts
  refine ⟨?_, ?_, fun parts hparts => ?_⟩
  · rw [hblocks]
    exact hcuts.isCut hdelimiter
  · rw [hblocks]
    refine List.forall_mem_map.mpr fun part hpart hline => ?_
    rw [String.toList_ofList] at hline
    have hmem := hcuts.subset hpart hline
    rw [toList_unbroken] at hmem
    simp at hmem
  · rw [hblocks, hparts.splitOn_eq hdelimiter, List.map_map]
    simp

/-- Two markers that share two characters, and one that a line break stands
in. -/
def sharing : String := "a##!!**##!!**##b##!!*\n*##"

/-- Joined by the marker, other parts give the same text, but the first of them
runs over a marker. -/
theorem isCut_blocks_sharing :
    IsCut "##!!**##" "a##!!**##!!**##b##!!**##" ["a", "!!**##b", ""] ∧
      "##!!**##".intercalate ["a##!!**", "b", ""] = "a##!!**##!!**##b##!!**##" ∧
      ¬ IsCut "##!!**##" "a##!!**##!!**##b##!!**##" ["a##!!**", "b", ""] := by
  have hne : "##!!**##" ≠ "" := by decide
  have hunbroken : unbroken sharing = "a##!!**##!!**##b##!!**##" := by rfl
  have hblocks : blocks sharing "##!!**##" = ["a", "!!**##b", ""] := by rfl
  obtain ⟨hcut, -, hunique⟩ := isCut_blocks hne sharing
  rw [hunbroken, hblocks] at hcut hunique
  refine ⟨hcut, by rfl, fun hother => ?_⟩
  exact absurd (hunique _ hother) (by decide)

end ScriptFeatures.Stream
