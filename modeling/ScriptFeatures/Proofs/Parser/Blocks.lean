import Mathlib.Data.List.Infix
import ScriptFeatures.Parser.Stream

/-!
Where a text is cut. A block ends at the leftmost delimiter, so a text that is
joined from parts is cut into them again as long as no part together with the
delimiter behind it has a delimiter before its end (`Clear`). This is more than
that no part has one: the default delimiter `##!!**##` ends as it begins, and
behind a part that ends in `##!!**` it is found six characters early.
-/

namespace ScriptFeatures.Stream

/-- Followed by the delimiter, the part has it only at the end. -/
def Clear (delimiter part : List Char) : Prop :=
  ∀ before after, part ++ delimiter = before ++ delimiter ++ after → after = []

section

variable {delimiter : List Char}

theorem Clear.tail {c : Char} {part : List Char} (h : Clear delimiter (c :: part)) :
    Clear delimiter part := by
  intro before after heq
  refine h (c :: before) after ?_
  rw [List.cons_append, heq]
  rfl

theorem Clear.not_prefix {c : Char} {part : List Char} (h : Clear delimiter (c :: part))
    (rest : List Char) : ¬ delimiter <+: c :: (part ++ (delimiter ++ rest)) := by
  intro hprefix
  have hwhole : c :: (part ++ (delimiter ++ rest)) = (c :: part ++ delimiter) ++ rest := by simp
  have hlength : delimiter.length ≤ (c :: part ++ delimiter).length := by
    rw [List.length_append]
    exact Nat.le_add_left delimiter.length (c :: part).length
  rw [hwhole] at hprefix
  -- the delimiter would stand in the part and the delimiter behind it
  obtain ⟨after, hafter⟩ :=
    List.prefix_of_prefix_length_le hprefix (List.prefix_append _ rest) hlength
  have hnil := h [] after hafter.symm
  rw [hnil, List.append_nil] at hafter
  have hshort := congrArg List.length hafter
  rw [List.length_append, List.length_cons] at hshort
  omega

theorem Clear.absent (hne : delimiter ≠ []) {part : List Char} (h : Clear delimiter part) :
    ¬ delimiter <:+: part := by
  rintro ⟨before, after, heq⟩
  have hnil : after ++ delimiter = [] := by
    refine h before (after ++ delimiter) ?_
    rw [← heq, List.append_assoc]
  exact hne (List.append_eq_nil_iff.mp hnil).2

/-- A part is clear if it does not have the delimiter and its last character
does not stand in it. -/
theorem clear_of_last {part : List Char} (habsent : ¬ delimiter <:+: part)
    (hlast : ∀ cs c, part = cs ++ [c] → c ∉ delimiter) : Clear delimiter part := by
  intro before after heq
  rw [List.append_assoc] at heq
  rcases List.append_eq_append_iff.mp heq with ⟨more, -, hmore⟩ | ⟨more, hpart, hmore⟩
  · have hlength := congrArg List.length hmore
    simp only [List.length_append] at hlength
    exact List.eq_nil_of_length_eq_zero (by omega)
  · -- the delimiter would begin inside the part, in front of `more`
    have hbegins : delimiter <+: more ++ delimiter := ⟨after, hmore⟩
    rcases List.prefix_or_prefix_of_prefix hbegins (List.prefix_append more delimiter) with
      hinside | hacross
    · refine absurd ?_ habsent
      rw [hpart]
      exact hinside.isInfix.trans (List.suffix_append before more).isInfix
    · rcases List.eq_nil_or_concat more with hnil | ⟨cs, c, hmore'⟩
      · rw [hnil, List.nil_append] at hmore
        exact List.append_right_eq_self.mp hmore
      · rw [List.concat_eq_append] at hmore'
        refine absurd (hacross.subset ?_) (hlast (before ++ cs) c ?_)
        · rw [hmore']
          exact List.mem_concat_self
        · rw [hpart, hmore', List.append_assoc]

/-! ### Cutting -/

theorem cut_skip (block : List Char) (skipped rest : List Char) :
    cut delimiter skipped.length block (skipped ++ rest) = cut delimiter 0 block rest := by
  induction skipped with
  | nil => rfl
  | cons c skipped ih => exact ih

theorem cut_delimiter (hne : delimiter ≠ []) (block rest : List Char) :
    cut delimiter 0 block (delimiter ++ rest) = block.reverse :: cut delimiter 0 [] rest := by
  cases delimiter with
  | nil => contradiction
  | cons c cs =>
    have hbegins : (c :: cs).isPrefixOf (c :: (cs ++ rest)) = true :=
      List.isPrefixOf_iff_prefix.mpr (List.prefix_append (c :: cs) rest)
    rw [List.cons_append, cut, if_pos hbegins]
    exact congrArg _ (cut_skip [] cs rest)

theorem cut_cons {c : Char} {cs : List Char} (h : ¬ delimiter <+: c :: cs) (block : List Char) :
    cut delimiter 0 block (c :: cs) = cut delimiter 0 (c :: block) cs := by
  rw [cut, if_neg (fun hbegins => h (List.isPrefixOf_iff_prefix.mp hbegins))]

/-- A clear part goes to the block under way, which the delimiter behind it
ends. -/
theorem Clear.cut_append (hne : delimiter ≠ []) {part : List Char} (h : Clear delimiter part)
    (block rest : List Char) :
    cut delimiter 0 block (part ++ (delimiter ++ rest)) =
      (block.reverse ++ part) :: cut delimiter 0 [] rest := by
  induction part generalizing block with
  | nil => rw [List.nil_append, List.append_nil, cut_delimiter hne]
  | cons c part ih =>
    rw [List.cons_append, cut_cons (h.not_prefix rest), ih h.tail]
    simp

theorem cut_of_absent {part : List Char} (h : ¬ delimiter <:+: part) (block : List Char) :
    cut delimiter 0 block part = [block.reverse ++ part] := by
  induction part generalizing block with
  | nil => rw [cut, List.append_nil]
  | cons c part ih =>
    have hrest : ¬ delimiter <:+: part := by
      intro hin
      exact h (hin.trans (List.suffix_cons c part).isInfix)
    rw [cut_cons (fun hprefix => h hprefix.isInfix), ih hrest]
    simp

theorem splitOn_eq_cut (hne : delimiter ≠ []) (text : List Char) :
    splitOn delimiter text = cut delimiter 0 [] text := by
  rw [splitOn, if_neg (by simpa using hne)]

theorem cut_ne_nil (skip : Nat) (block text : List Char) : cut delimiter skip block text ≠ [] := by
  induction text generalizing skip block with
  | nil => exact List.cons_ne_nil block.reverse []
  | cons c text ih =>
    cases skip with
    | succ skip => exact ih skip block
    | zero =>
      rw [cut]
      split
      · exact List.cons_ne_nil block.reverse _
      · exact ih 0 (c :: block)

theorem two_le_length_cut (hne : delimiter ≠ []) {text : List Char} (h : delimiter <:+: text)
    (block : List Char) : 2 ≤ (cut delimiter 0 block text).length := by
  induction text generalizing block with
  | nil => exact absurd (List.infix_nil.mp h) hne
  | cons c text ih =>
    by_cases hbegins : delimiter <+: c :: text
    · obtain ⟨rest, hrest⟩ := hbegins
      have hlater : 0 < (cut delimiter 0 [] rest).length :=
        List.length_pos_iff.mpr (cut_ne_nil 0 [] rest)
      rw [← hrest, cut_delimiter hne, List.length_cons]
      omega
    · have hinside := (List.infix_cons_iff.mp h).resolve_left hbegins
      rw [cut_cons hbegins]
      exact ih hinside (c :: block)

/-- Cutting undoes joining. No delimiter stands behind the last part, which may
therefore end as it likes. -/
theorem splitOn_intercalate (hne : delimiter ≠ []) {parts : List (List Char)}
    (hparts : parts ≠ []) (hclear : ∀ part ∈ parts.dropLast, Clear delimiter part)
    (hlast : ¬ delimiter <:+: parts.getLast hparts) :
    splitOn delimiter (delimiter.intercalate parts) = parts := by
  rw [splitOn_eq_cut hne]
  induction parts with
  | nil => contradiction
  | cons part parts ih =>
    cases parts with
    | nil =>
      rw [List.intercalate_singleton]
      exact cut_of_absent hlast []
    | cons next parts =>
      have hpart := hclear part List.mem_cons_self
      have hrest := ih (List.cons_ne_nil next parts)
        (fun p hp => hclear p (List.mem_cons_of_mem part hp)) hlast
      rw [List.intercalate_cons_cons, List.append_assoc, hpart.cut_append hne, hrest]
      rfl

/-- The first part has no delimiter, but is not clear. -/
example : splitOn "##!!**##".toList ("##!!**" ++ "##!!**##" ++ "x").toList =
    [[], "!!**##x".toList] := by rfl

end

/-! ### Line breaks -/

theorem filter_intercalate {p : Char → Bool} {delimiter : List Char}
    (hkeep : delimiter.filter p = delimiter) (parts : List (List Char)) :
    (delimiter.intercalate parts).filter p = delimiter.intercalate (parts.map (·.filter p)) := by
  induction parts with
  | nil => rfl
  | cons part parts ih =>
    cases parts with
    | nil => simp
    | cons next parts =>
      rw [List.intercalate_cons_cons, List.filter_append, List.filter_append, hkeep, ih]
      simp [List.intercalate_cons_cons]

def unbroken (text : String) : String := String.ofList (text.toList.filter (· != '\n'))

theorem toList_unbroken (text : String) :
    (unbroken text).toList = text.toList.filter (· != '\n') :=
  String.toList_ofList

theorem toList_filter_of_unbroken {delimiter : String} (hline : '\n' ∉ delimiter.toList) :
    delimiter.toList.filter (· != '\n') = delimiter.toList := by
  refine List.filter_eq_self.mpr fun c hc => ?_
  have hdiffers : c ≠ '\n' := fun heq => hline (heq ▸ hc)
  simpa using hdiffers

/-- Texts joined by a delimiter without line breaks come out one by one, each on
one line. -/
theorem blocks_intercalate {delimiter : String} {texts : List String} (hne : delimiter ≠ "")
    (hline : '\n' ∉ delimiter.toList) (htexts : texts ≠ [])
    (hclear : ∀ text ∈ texts, Clear delimiter.toList (unbroken text).toList) :
    blocks (delimiter.intercalate texts) delimiter = texts.map unbroken := by
  have hkeep := toList_filter_of_unbroken hline
  have hlines : ((texts.map String.toList).map (·.filter (· != '\n'))) =
      texts.map fun text => (unbroken text).toList := by
    simp [toList_unbroken]
  have hcut : splitOn delimiter.toList
      (delimiter.toList.intercalate (texts.map fun text => (unbroken text).toList)) =
      texts.map fun text => (unbroken text).toList := by
    have hdelimiter : delimiter.toList ≠ [] := by simpa using hne
    have hall : ∀ part ∈ texts.map fun text => (unbroken text).toList,
        Clear delimiter.toList part := by simpa using hclear
    apply splitOn_intercalate hdelimiter (by simpa using htexts)
    · intro part hpart
      exact hall part (List.mem_of_mem_dropLast hpart)
    · exact (hall _ (List.getLast_mem _)).absent hdelimiter
  rw [blocks, String.toList_intercalate, filter_intercalate hkeep, hlines, hcut]
  simp

theorem two_le_length_blocks {delimiter : String} (hne : delimiter ≠ "")
    (hline : '\n' ∉ delimiter.toList) (a b : String) :
    2 ≤ (blocks (a ++ delimiter ++ b) delimiter).length := by
  have hdelimiter : delimiter.toList ≠ [] := by simpa using hne
  have hinside : delimiter.toList <:+: (a ++ delimiter ++ b).toList.filter (· != '\n') := by
    rw [String.toList_append, String.toList_append, List.filter_append, List.filter_append,
      toList_filter_of_unbroken hline]
    exact List.infix_append _ _ _
  rw [blocks, List.length_map, splitOn_eq_cut hdelimiter]
  exact two_le_length_cut hdelimiter hinside []

/-- A delimiter with a line break is never found, since the line breaks are left
out before the text is cut. -/
theorem blocks_eq_singleton {delimiter : String} (hline : '\n' ∈ delimiter.toList)
    (text : String) : blocks text delimiter = [unbroken text] := by
  have hdelimiter : delimiter.toList ≠ [] := List.ne_nil_of_mem hline
  have habsent : ¬ delimiter.toList <:+: text.toList.filter (· != '\n') := by
    intro hin
    have hmem := List.mem_filter.mp (hin.subset hline)
    simp at hmem
  rw [blocks, splitOn_eq_cut hdelimiter, cut_of_absent habsent]
  rfl

end ScriptFeatures.Stream
