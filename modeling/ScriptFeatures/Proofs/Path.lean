import Mathlib.Data.List.Infix
import ScriptFeatures.Parser.Command

/-!
Names at the end of a path. A name is the last part of the path that leads to
it from a directory (`Path.parts_join`), and what stands in front of it is said
by the directory alone, so paths of different names in one directory differ in
this part and in nothing else.
-/

namespace ScriptFeatures

namespace Path

/-! ### Parts -/

theorem splitAt_ne_nil (separator : Char) (cs : List Char) : splitAt separator cs ≠ [] := by
  cases cs with
  | nil => simp [splitAt]
  | cons c cs =>
    rw [splitAt]
    split
    · simp
    · split <;> simp

theorem splitAt_append (separator : Char) (xs ys : List Char) :
    splitAt separator (xs ++ separator :: ys) = splitAt separator xs ++ splitAt separator ys := by
  induction xs with
  | nil =>
    cases hys : splitAt separator ys with
    | nil => exact absurd hys (splitAt_ne_nil separator ys)
    | cons part parts => simp [splitAt, hys]
  | cons x xs ih =>
    cases hxs : splitAt separator xs with
    | nil => exact absurd hxs (splitAt_ne_nil separator xs)
    | cons part parts =>
      rw [hxs, List.cons_append] at ih
      simp only [List.cons_append, splitAt, ih, hxs]
      split <;> rfl

theorem splitAt_of_not_mem {separator : Char} {cs : List Char} (h : separator ∉ cs) :
    splitAt separator cs = [cs] := by
  induction cs with
  | nil => rfl
  | cons c cs ih =>
    simp only [List.mem_cons, not_or] at h
    have hc : (c == separator) = false := beq_eq_false_iff_ne.mpr fun heq => h.1 heq.symm
    rw [splitAt, ih h.2]
    simp [hc]

theorem parts_append_slash (path name : String) :
    parts (path ++ "/" ++ name) = parts path ++ parts name := by
  simp [parts, splitAt_append]

/-! ### Names -/

/-- What a file in a directory can be called. -/
structure IsName (name : String) : Prop where
  noSlash : '/' ∉ name.toList
  notSilent : isSilent name = false
  notUp : name ≠ ".."

variable {directory name : String}

theorem parts_of_not_mem (h : '/' ∉ name.toList) : parts name = [name] := by
  rw [parts, splitAt_of_not_mem h, List.map_singleton, String.ofList_toList]

theorem not_startsWith_of_not_mem (h : '/' ∉ name.toList) : name.startsWith "/" = false := by
  rw [Bool.eq_false_iff, Ne, String.startsWith_string_iff]
  rintro ⟨rest, hrest⟩
  refine h ?_
  rw [← hrest]
  simp

/-- The parts that are no names have at most two characters. -/
theorem isName_of_length (hslash : '/' ∉ name.toList) (hlong : 3 ≤ name.length) : IsName name := by
  have hshort {short : String} (hlength : short.length ≤ 2) : name ≠ short := by
    rintro rfl
    omega
  refine ⟨hslash, ?_, hshort (by decide)⟩
  rw [isSilent, beq_eq_false_iff_ne.mpr (hshort (by decide)),
    beq_eq_false_iff_ne.mpr (hshort (by decide))]
  rfl

theorem IsName.ne_empty (h : IsName name) : name ≠ "" := by
  rintro rfl
  exact absurd h.notSilent (by decide)

theorem IsName.ne_dot (h : IsName name) : name ≠ "." := by
  rintro rfl
  exact absurd h.notSilent (by decide)

theorem IsName.append (h : IsName name) {ending : String} (hslash : '/' ∉ ending.toList)
    (hlong : 2 ≤ ending.length) : IsName (name ++ ending) := by
  have hpos : 0 < name.length := by
    rw [← String.length_toList]
    exact List.length_pos_of_ne_nil fun hnil => h.ne_empty (String.toList_eq_nil_iff.mp hnil)
  refine isName_of_length ?_ ?_
  · simp [h.noSlash, hslash]
  · rw [String.length_append]
    omega

def parentParts (directory : String) : List String :=
  if directory.isEmpty then []
  else if directory.endsWith "/" then (parts directory).dropLast
  else parts directory

theorem endsWith_slash (h : directory.endsWith "/" = true) :
    ∃ front : String, directory = front ++ "/" := by
  rw [String.endsWith_eq_endsWith_toSlice, String.Slice.endsWith_string_iff] at h
  obtain ⟨front, hfront⟩ := h
  refine ⟨String.ofList front, ?_⟩
  rw [← String.toList_inj]
  simpa using hfront.symm

theorem parts_join (h : '/' ∉ name.toList) :
    parts (join directory name) = parentParts directory ++ [name] := by
  have hname := parts_of_not_mem h
  rw [join, parentParts, not_startsWith_of_not_mem h, Bool.false_or]
  split
  · exact hname
  split
  · next hend =>
    obtain ⟨front, rfl⟩ := endsWith_slash hend
    have hfront := parts_append_slash front ""
    have hempty : parts "" = [""] := rfl
    rw [String.append_empty, hempty] at hfront
    rw [parts_append_slash, hname, hfront, List.dropLast_concat]
  · rw [parts_append_slash, hname]

theorem startsWith_join (h : '/' ∉ name.toList) :
    (join directory name).startsWith "/" = directory.startsWith "/" := by
  have hprefix (path more : String) (hpath : path ≠ "") :
      (path ++ more).startsWith "/" = path.startsWith "/" := by
    rw [Bool.eq_iff_iff, String.startsWith_string_iff, String.startsWith_string_iff]
    cases hcs : path.toList with
    | nil => exact absurd (String.toList_eq_nil_iff.mp hcs) hpath
    | cons c cs => simp [hcs]
  rw [join, not_startsWith_of_not_mem h, Bool.false_or]
  split
  · next hempty =>
    rw [String.isEmpty_iff.mp hempty, not_startsWith_of_not_mem h]
    simp
  · next hempty =>
    have hne : directory ≠ "" := fun heq => hempty (String.isEmpty_iff.mpr heq)
    split
    · exact hprefix directory name hne
    · rw [String.append_assoc]
      exact hprefix directory _ hne

theorem fileName?_join (h : IsName name) : fileName? (join directory name) = some name := by
  have hlast : (significantParts (join directory name)).getLast? = some name := by
    rw [significantParts, parts_join h.noSlash, List.reverse_append, List.reverse_singleton,
      List.singleton_append, List.dropWhile_cons_of_neg (by simp [h.notSilent])]
    simp
  rw [fileName?, hlast]
  split
  · next heq => exact absurd (Option.some.inj heq) h.notUp
  · rfl

end Path

end ScriptFeatures
