import ScriptFeatures.Proofs.Path

/-!
Extensions of names. A path that ends in a name is what stands in front of the
name and the name, and in one way only (`Path.append_inj`). The extension is
what follows the last dot of the name (`Path.splitExtension_append`), and
another extension takes its place (`Path.withExtension_append`), except for a
name that would end in two dots and nothing else in front of the extension.
-/

namespace ScriptFeatures.Path

/-! ### Fronts -/

/-- What can stand in front of a name in a path. -/
def IsFront (front : String) : Prop := front = "" ∨ front.endsWith "/" = true

/-- A path that ends in a name, with what stands in front of it. -/
structure Splits (path front name : String) : Prop where
  isFront : IsFront front
  isName : IsName name
  eq : path = front ++ name

variable {front front' name name' stem path : String}

theorem isFront_slash (directory : String) : IsFront (directory ++ "/") := by
  refine .inr ?_
  rw [String.endsWith_eq_endsWith_toSlice, String.Slice.endsWith_string_iff]
  exact ⟨directory.toList, by simp⟩

theorem IsFront.join_eq (h : IsFront front) (hname : '/' ∉ name.toList) :
    join front name = front ++ name := by
  rw [join, not_startsWith_of_not_mem hname, Bool.false_or]
  split
  · next hempty => rw [String.isEmpty_iff.mp hempty, String.empty_append]
  · next hempty =>
    rcases h with hnone | hslash
    · exact absurd (String.isEmpty_iff.mpr hnone) hempty
    · rw [if_pos hslash]

theorem IsFront.parts_append (h : IsFront front) (hname : '/' ∉ name.toList) :
    parts (front ++ name) = parentParts front ++ [name] := by
  rw [← h.join_eq hname, parts_join hname]

theorem append_inj (h : IsFront front) (h' : IsFront front') (hname : '/' ∉ name.toList)
    (hname' : '/' ∉ name'.toList) (heq : front ++ name = front' ++ name') :
    front = front' ∧ name = name' := by
  have hparts := congrArg parts heq
  rw [h.parts_append hname, h'.parts_append hname'] at hparts
  have hlast : name = name' := List.singleton_inj.mp (List.append_inj' hparts rfl).2
  rw [hlast] at heq
  exact ⟨String.append_left_inj name' |>.mp heq, hlast⟩

theorem Splits.inj (h : Splits path front name) (h' : Splits path front' name') :
    front = front' ∧ name = name' :=
  append_inj h.isFront h'.isFront h.isName.noSlash h'.isName.noSlash (h.eq.symm.trans h'.eq)

/-! ### Joining the parts -/

theorem intercalate_splitAt (separator : Char) (cs : List Char) :
    [separator].intercalate (splitAt separator cs) = cs := by
  induction cs with
  | nil => rfl
  | cons c cs ih =>
    rw [splitAt]
    cases hrest : splitAt separator cs with
    | nil => exact absurd hrest (splitAt_ne_nil separator cs)
    | cons part parts =>
      rw [hrest] at ih
      dsimp only
      split
      · next hc =>
        rw [List.intercalate_cons_cons, ih, beq_iff_eq.mp hc]
        rfl
      · cases parts with
        | nil => simpa using ih
        | cons next parts =>
          rw [List.intercalate_cons_cons] at ih ⊢
          rw [← ih]
          simp

theorem intercalate_parts (path : String) : "/".intercalate (parts path) = path := by
  rw [← String.toList_inj, String.toList_intercalate, parts, List.map_map]
  have htexts : (splitAt '/' path.toList).map (String.toList ∘ String.ofList) =
      splitAt '/' path.toList := by
    simp [Function.comp_def]
  rw [htexts]
  exact intercalate_splitAt '/' path.toList

theorem IsFront.append (h : IsFront front) (directory : String) :
    IsFront (directory ++ "/" ++ front) := by
  rcases h with rfl | hslash
  · rw [String.append_empty]
    exact isFront_slash directory
  · obtain ⟨text, rfl⟩ := endsWith_slash hslash
    rw [← String.append_assoc]
    exact isFront_slash _

theorem exists_intercalate_concat (parts : List String) (name : String) :
    ∃ front, IsFront front ∧ "/".intercalate (parts ++ [name]) = front ++ name := by
  induction parts with
  | nil => exact ⟨"", .inl rfl, by simp⟩
  | cons part parts ih =>
    obtain ⟨front, hfront, htext⟩ := ih
    refine ⟨part ++ "/" ++ front, hfront.append part, ?_⟩
    rw [List.cons_append, String.intercalate_cons_of_ne_nil (by simp), htext]
    simp only [String.append_assoc]

/-- The paths that end in a name are those whose last part is one. -/
theorem exists_splits_iff :
    (∃ front name, Splits path front name) ↔
      ∃ name, (parts path).getLast? = some name ∧ IsName name := by
  constructor
  · rintro ⟨front, name, h⟩
    refine ⟨name, ?_, h.isName⟩
    rw [h.eq, h.isFront.parts_append h.isName.noSlash, List.getLast?_concat]
  · rintro ⟨name, hlast, hname⟩
    obtain ⟨before, hparts⟩ := List.getLast?_eq_some_iff.mp hlast
    obtain ⟨front, hfront, htext⟩ := exists_intercalate_concat before name
    rw [← hparts, intercalate_parts] at htext
    exact ⟨front, name, hfront, hname, htext⟩

theorem exists_join (directory path : String) : ∃ text, join directory path = text ++ path := by
  rw [join]
  split
  · exact ⟨"", String.empty_append.symm⟩
  split
  · exact ⟨directory, rfl⟩
  · exact ⟨directory ++ "/", rfl⟩

theorem IsFront.intercalate_eq (h : IsFront front) (hname : '/' ∉ name.toList) :
    "/".intercalate (parentParts front ++ [name]) = front ++ name := by
  rw [← h.parts_append hname, intercalate_parts]

/-! ### The last name -/

theorem IsFront.significantParts_append (h : IsFront front) (hname : '/' ∉ name.toList)
    (hsaid : isSilent name = false) :
    significantParts (front ++ name) = parentParts front ++ [name] := by
  rw [significantParts, h.parts_append hname, List.reverse_append, List.reverse_singleton,
    List.singleton_append, List.dropWhile_cons_of_neg (by simp [hsaid])]
  simp

theorem Splits.fileName?_eq (h : Splits path front name) : fileName? path = some name := by
  rw [h.eq, ← h.isFront.join_eq h.isName.noSlash, fileName?_join h.isName]

theorem Splits.extension?_eq (h : Splits path front name) :
    extension? path = (splitExtension name).2 := by
  rw [extension?, h.fileName?_eq, Option.bind_some]

theorem IsFront.fileName?_up (h : IsFront front) : fileName? (front ++ "..") = none := by
  rw [fileName?, h.significantParts_append (by simp) (by decide), List.getLast?_concat]
  rfl

/-! ### Extensions -/

theorem append_ne_of_length_lt {text ending short : String} (h : short.length < ending.length) :
    text ++ ending ≠ short := by
  rintro rfl
  rw [String.length_append] at h
  omega

theorem splitExtension_append {extension : String} (hstem : stem ≠ "")
    (hdot : '.' ∉ extension.toList) :
    splitExtension (stem ++ "." ++ extension) = (stem, some extension) := by
  have hplain : ∀ c ∈ extension.toList.reverse, (c != '.') = true := by
    intro c hc
    rw [bne_iff_ne]
    rintro rfl
    exact hdot (List.mem_reverse.mp hc)
  have hreverse : (stem ++ "." ++ extension).toList.reverse =
      extension.toList.reverse ++ '.' :: stem.toList.reverse := by
    simp
  obtain ⟨c, cs, hcs⟩ := List.exists_cons_of_ne_nil
    (List.reverse_ne_nil_iff.mpr fun hnil => hstem (String.toList_eq_nil_iff.mp hnil))
  rw [splitExtension, hreverse, List.span_eq_takeWhile_dropWhile,
    List.takeWhile_append_of_pos hplain, List.dropWhile_append_of_pos hplain,
    List.takeWhile_cons_of_neg (by simp), List.dropWhile_cons_of_neg (by simp), hcs,
    List.append_nil]
  dsimp only
  rw [← hcs, List.reverse_reverse, List.reverse_reverse, String.ofList_toList,
    String.ofList_toList]

theorem exists_of_splitExtension {extension : String}
    (h : (splitExtension name).2 = some extension) :
    ∃ stem, stem ≠ "" ∧ name = stem ++ "." ++ extension ∧ '.' ∉ extension.toList := by
  -- backwards, a name is what follows its last dot, then the dot, then the stem
  rw [splitExtension, List.span_eq_takeWhile_dropWhile] at h
  have hwhole := @List.takeWhile_append_dropWhile _ (· != '.') name.toList.reverse
  have hbefore := @List.all_takeWhile _ (· != '.') name.toList.reverse
  have hdot := @List.head?_dropWhile_not _ (· != '.') name.toList.reverse
  generalize name.toList.reverse.takeWhile (· != '.') = after at h hwhole hbefore
  generalize name.toList.reverse.dropWhile (· != '.') = before at h hwhole hdot
  split at h
  · contradiction
  · contradiction
  next dot rest hrest heq =>
  cases heq
  cases h
  have hpoint : dot = '.' := by simpa using hdot
  refine ⟨String.ofList rest.reverse, ?_, ?_, ?_⟩
  · intro hempty
    exact hrest (by simpa using hempty)
  · rw [← String.toList_inj, ← List.reverse_inj, ← hwhole, hpoint]
    simp
  · rw [String.toList_ofList, List.mem_reverse]
    intro hmem
    exact absurd (List.all_eq_true.mp hbefore '.' hmem) (by simp)

/-! ### Another extension -/

theorem setExtension_cases (path extension : String) :
    (fileName? path = none ∧ setExtension path extension = path) ∨
      ∃ text, setExtension path extension = text ++ ("." ++ extension) := by
  rw [setExtension]
  cases hname : fileName? path with
  | none => exact .inl ⟨rfl, rfl⟩
  | some name =>
    obtain ⟨text, -, htext⟩ := exists_intercalate_concat (significantParts path).dropLast
      ((splitExtension name).1 ++ "." ++ extension)
    exact .inr ⟨text ++ (splitExtension name).1, htext.trans (by simp only [String.append_assoc])⟩

theorem IsName.append_dot (h : IsName (stem ++ ".js")) (hne : stem ≠ "") (hdot : stem ≠ ".") :
    IsName (stem ++ ".") where
  noSlash := by
    have hslash := h.noSlash
    rw [String.toList_append, List.mem_append, not_or] at hslash
    rw [String.toList_append, List.mem_append, not_or]
    exact ⟨hslash.1, by simp⟩
  notSilent := by
    have hlong : stem ++ "." ≠ "" ++ "." := fun heq => hne (String.append_left_inj "." |>.mp heq)
    have hfull : stem ++ "." ≠ "" := by simp
    rw [isSilent, beq_eq_false_iff_ne.mpr hfull, Bool.false_or]
    exact beq_eq_false_iff_ne.mpr hlong
  notUp := by
    have hup : stem ++ "." ≠ "." ++ "." := fun heq => hdot (String.append_left_inj "." |>.mp heq)
    exact hup

theorem ofList_take_append (text ending : String) :
    String.ofList ((text ++ ending).toList.take ((text ++ ending).length - ending.length)) =
      text := by
  have hlength : (text ++ ending).length - ending.length = text.toList.length := by
    rw [String.length_append, Nat.add_sub_cancel, String.length_toList]
  rw [hlength, String.toList_append, List.take_left, String.ofList_toList]

/-- What `withExtension` takes off is the extension and not its dot. -/
theorem Splits.withExtension_eq (h : Splits path front (stem ++ ".js")) (hne : stem ≠ "") :
    withExtension path "json" = setExtension (front ++ (stem ++ ".")) "json" := by
  have hjs : stem ++ ".js" = stem ++ "." ++ "js" := by
    rw [String.append_assoc]
    rfl
  have hextension : extension? path = some "js" := by
    rw [h.extension?_eq, hjs, splitExtension_append hne (by simp)]
  have htaken : String.ofList (path.toList.take (path.length - "js".length)) =
      front ++ (stem ++ ".") := by
    rw [h.eq, hjs, ← String.append_assoc]
    exact ofList_take_append _ _
  rw [withExtension, hextension, Option.getD_some, htaken]

theorem Splits.withExtension_json (h : Splits path front (stem ++ ".js")) (hne : stem ≠ "")
    (hdot : stem ≠ ".") : withExtension path "json" = front ++ (stem ++ ".json") := by
  have hcut : Splits (front ++ (stem ++ ".")) front (stem ++ ".") :=
    ⟨h.isFront, h.isName.append_dot hne hdot, rfl⟩
  have hstem : splitExtension (stem ++ ".") = (stem, some "") := by
    have hsplit := @splitExtension_append stem "" hne (by simp)
    rwa [String.append_empty] at hsplit
  have hslash : '/' ∉ (stem ++ "." ++ "json").toList := by
    have hname := hcut.isName.noSlash
    simpa using hname
  rw [h.withExtension_eq hne, setExtension, hcut.fileName?_eq]
  dsimp only
  rw [h.isFront.significantParts_append hcut.isName.noSlash hcut.isName.notSilent,
    List.dropLast_concat, hstem, h.isFront.intercalate_eq hslash, String.append_assoc]
  rfl

theorem Splits.withExtension_up (h : Splits path front "..js") :
    withExtension path "json" = front ++ ".." := by
  have hup := h.isFront.fileName?_up
  have hsplits : Splits path front ("." ++ ".js") := h
  rw [hsplits.withExtension_eq (by decide)]
  change setExtension (front ++ "..") "json" = _
  rw [setExtension, hup]

end ScriptFeatures.Path
