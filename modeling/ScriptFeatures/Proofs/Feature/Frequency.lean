import ScriptFeatures.Feature.Frequency

/-!
What the frequencies of some features hold: the count of a feature is the
number of its occurrences, and the total is the number of all of them. The
distinct features are those with a count, each of them once.
-/

namespace ScriptFeatures.Frequencies

theorem count_empty (f : Feature) : empty.count f = 0 := Std.HashMap.getD_empty

theorem count_add (m : Frequencies) (g f : Feature) :
    (m.add g).count f = m.count f + if g = f then 1 else 0 := by
  simp only [add, count, Std.HashMap.getD_insert]
  by_cases h : g = f
  · subst h
    simp
  · simp [h]

theorem count_foldl_add (fs : List Feature) (m : Frequencies) (f : Feature) :
    (fs.foldl add m).count f = m.count f + fs.count f := by
  induction fs generalizing m with
  | nil => simp
  | cons g fs ih =>
    rw [List.foldl_cons, ih, count_add, List.count_cons]
    by_cases h : g = f
    · simp [h]
      omega
    · simp [h]

theorem count_ofList (fs : List Feature) (f : Feature) : (ofList fs).count f = fs.count f := by
  rw [ofList, count_foldl_add, count_empty, Nat.zero_add]

theorem total_foldl_add (fs : List Feature) (m : Frequencies) :
    (fs.foldl add m).total = m.total + fs.length := by
  induction fs generalizing m with
  | nil => rfl
  | cons g fs ih =>
    rw [List.foldl_cons, ih, List.length_cons]
    simp only [add]
    omega

theorem total_ofList (fs : List Feature) : (ofList fs).total = fs.length := by
  rw [ofList, total_foldl_add]
  exact Nat.zero_add _

/-! ### Distinct features -/

/-- The distinct features are listed once each, and those with a count are. -/
structure Indexed (m : Frequencies) : Prop where
  nodup : m.distinct.toList.Nodup
  mem_distinct {f : Feature} : f ∈ m.distinct.toList ↔ 0 < m.count f

theorem Indexed.empty : Frequencies.empty.Indexed where
  nodup := List.nodup_nil
  mem_distinct := by
    intro f
    rw [count_empty]
    exact ⟨fun h => absurd h List.not_mem_nil, fun h => absurd h (Nat.lt_irrefl 0)⟩

theorem Indexed.add {m : Frequencies} (h : m.Indexed) (g : Feature) : (m.add g).Indexed := by
  by_cases hg : m.count g = 0
  · -- a feature without a count is not listed yet
    have hnew : g ∉ m.distinct.toList := fun hmem =>
      Nat.ne_of_gt (h.mem_distinct.mp hmem) hg
    have hdistinct : (m.add g).distinct.toList = m.distinct.toList ++ [g] := by
      simp only [Frequencies.add, hg, if_true, Array.toList_push]
    constructor
    · rw [hdistinct, List.nodup_append]
      refine ⟨h.nodup, by simp, ?_⟩
      intro f hf f' hf' heq
      rw [heq, List.mem_singleton.mp hf'] at hf
      exact hnew hf
    · intro f
      rw [hdistinct, List.mem_append, List.mem_singleton, h.mem_distinct, count_add]
      by_cases hf : g = f
      · simp [hf]
      · simp [hf, Ne.symm hf]
  · have hdistinct : (m.add g).distinct = m.distinct := by
      simp only [Frequencies.add, hg, if_false]
    constructor
    · rw [hdistinct]
      exact h.nodup
    · intro f
      rw [hdistinct, h.mem_distinct, count_add]
      by_cases hf : g = f
      · subst hf
        simp [Nat.pos_of_ne_zero hg]
      · simp [hf]

theorem indexed_ofList (fs : List Feature) : (ofList fs).Indexed := by
  have hfold (m : Frequencies) (hm : m.Indexed) : (fs.foldl Frequencies.add m).Indexed := by
    induction fs generalizing m with
    | nil => exact hm
    | cons f fs ih => exact ih _ (hm.add f)
  exact hfold _ .empty

end ScriptFeatures.Frequencies
