import Mathlib.Algebra.BigOperators.Group.List.Lemmas
import Mathlib.Algebra.GroupWithZero.Nat
import Mathlib.Data.List.Induction
import ScriptFeatures.Proofs.Feature.Frequency

/-!
Which list of features some frequencies stand for. The features are counted one
by one, and at any time the entries say exactly what has been counted so far
(`Frequencies.Tells`): each feature stands once, where it first occurred, with
the number of its occurrences. What the order of the list adds to the numbers
is only the order of the entries, so two lists are counted alike if and only if
one is a permutation of the other (`Frequencies.tells_ofList`).
-/

namespace ScriptFeatures

/-- Doubles are told apart by their bits, and so are features that hold them. -/
theorem Feature.double_beq (context context' : String) (x y : Decimal.Binary64) :
    ((⟨context, .double x⟩ : Feature) == ⟨context', .double y⟩) =
      (context == context' && x.bits == y.bits) := by
  have hbits : x = y ↔ x.bits = y.bits := by
    constructor
    · exact congrArg _
    · intro h
      obtain ⟨bits⟩ := x
      exact congrArg _ h
  rw [Bool.eq_iff_iff]
  simp [hbits]

namespace Frequencies

def keys (m : Frequencies) : List Feature := m.toList.map Prod.fst

theorem keys_eq (m : Frequencies) : m.keys = m.distinct.toList := by
  rw [keys, toList, List.map_map]
  exact List.map_id _

/-- The entries of some frequencies say how often each feature of a list
occurs in it. -/
structure Tells (m : Frequencies) (fs : List Feature) : Prop where
  /-- An entry stands where its feature occurred first. -/
  ordered : m.keys.Pairwise fun f g => fs.idxOf f < fs.idxOf g
  mem_keys {f : Feature} : f ∈ m.keys ↔ f ∈ fs
  count_eq (f : Feature) : m.count f = fs.count f
  total_eq : m.total = fs.length

namespace Tells

variable {m : Frequencies} {fs : List Feature}

theorem empty : Frequencies.empty.Tells [] where
  ordered := .nil
  mem_keys := .rfl
  count_eq := count_empty
  total_eq := rfl

/-- A feature that has occurred has its place already; any other one is put
behind those that have. -/
theorem keys_add (h : m.Tells fs) (g : Feature) :
    (m.add g).keys = if g ∈ fs then m.keys else m.keys ++ [g] := by
  have hzero : m.count g = 0 ↔ g ∉ fs := by rw [h.count_eq, List.count_eq_zero]
  rw [keys_eq, keys_eq, add]
  by_cases hg : g ∈ fs
  · simp only [hzero, hg, not_true_eq_false, if_false, if_true]
  · simp only [hzero, hg, not_false_eq_true, if_true, if_false, Array.toList_push]

theorem add (h : m.Tells fs) (g : Feature) : (m.add g).Tells (fs ++ [g]) where
  ordered := by
    -- the features that have occurred keep their places
    have hkeep : m.keys.Pairwise fun f f' => (fs ++ [g]).idxOf f < (fs ++ [g]).idxOf f' := by
      refine h.ordered.imp_of_mem fun hf hf' hlt => ?_
      rw [List.idxOf_append_of_mem (h.mem_keys.mp hf), List.idxOf_append_of_mem (h.mem_keys.mp hf')]
      exact hlt
    rw [h.keys_add]
    split
    · exact hkeep
    · next hnew =>
      refine List.pairwise_append.mpr ⟨hkeep, List.pairwise_singleton _ g, fun f hf f' hf' => ?_⟩
      rw [List.mem_singleton.mp hf', List.idxOf_append_of_mem (h.mem_keys.mp hf),
        List.idxOf_append_of_notMem hnew]
      have hlt := List.idxOf_lt_length_of_mem (h.mem_keys.mp hf)
      omega
  mem_keys := by
    intro f
    rw [h.keys_add, List.mem_append, List.mem_singleton]
    split
    · next hg =>
      rw [h.mem_keys, iff_self_or]
      rintro rfl
      exact hg
    · rw [List.mem_append, List.mem_singleton, h.mem_keys]
  count_eq f := by
    rw [count_add, h.count_eq, List.count_append, List.count_singleton]
    simp only [beq_iff_eq]
  total_eq := by
    have hadd : (m.add g).total = m.total + 1 := rfl
    rw [hadd, h.total_eq, List.length_append, List.length_singleton]

theorem nodup (h : m.Tells fs) : m.keys.Nodup := by
  refine h.ordered.imp fun hlt heq => ?_
  rw [heq] at hlt
  exact Nat.lt_irrefl _ hlt

theorem entry (h : m.Tells fs) {e : Feature × Nat} (he : e ∈ m.toList) :
    e.2 = fs.count e.1 ∧ 1 ≤ e.2 := by
  have hkey : e.1 ∈ m.keys := List.mem_map_of_mem he
  have heq : e.2 = fs.count e.1 := by
    obtain ⟨f, -, rfl⟩ := List.mem_map.mp he
    exact h.count_eq f
  rw [heq]
  exact ⟨rfl, List.count_pos_iff.mpr (h.mem_keys.mp hkey)⟩

theorem sum (h : m.Tells fs) : (m.toList.map Prod.snd).sum = m.total := by
  have hcounts : m.toList.map Prod.snd = m.keys.map fs.count := by
    rw [keys, List.map_map]
    exact List.map_congr_left fun e he => (h.entry he).1
  have hperm : m.keys.Perm fs.dedup := by
    refine (List.perm_ext_iff_of_nodup h.nodup fs.nodup_dedup).mpr fun f => ?_
    rw [h.mem_keys, List.mem_dedup]
  rw [hcounts, (hperm.map fs.count).sum_eq, List.sum_map_count_dedup_eq_length, h.total_eq]

end Tells

theorem tells_foldl (fs : List Feature) : (ofList fs).Tells fs := by
  induction fs using List.reverseRecOn with
  | nil => exact .empty
  | append_singleton fs g ih =>
    rw [ofList, List.foldl_append]
    exact ih.add g

/-- What is counted is exact: the entries of a list stand in the order of the
first occurrences, each once, with the numbers of occurrences, none of which is
zero and which add up to the total, the length of the list. A feature is equal
to another one by its text, integer, bits or truth value, never across types of
values. Two lists have the same total and the same counts if and only if one is
a permutation of the other. -/
theorem tells_ofList (xs : List Feature) :
    (ofList xs).Tells xs ∧ (ofList xs).keys.Nodup ∧
    (∀ e ∈ (ofList xs).toList, e.2 = xs.count e.1 ∧ 1 ≤ e.2) ∧
    ((ofList xs).toList.map Prod.snd).sum = (ofList xs).total ∧
    (∀ context context' x y, ((⟨context, .double x⟩ : Feature) == ⟨context', .double y⟩) =
      (context == context' && x.bits == y.bits)) ∧
    ∀ ys : List Feature,
      ((ofList xs).total = (ofList ys).total ∧ ∀ f, (ofList xs).count f = (ofList ys).count f) ↔
        xs.Perm ys := by
  have htells := tells_foldl xs
  refine ⟨htells, htells.nodup, fun e he => htells.entry he, htells.sum, Feature.double_beq, ?_⟩
  intro ys
  have htells' := tells_foldl ys
  rw [List.perm_iff_count, htells.total_eq, htells'.total_eq]
  simp only [htells.count_eq, htells'.count_eq]
  exact and_iff_right_of_imp fun h => (List.perm_iff_count.mpr h).length_eq

/-- Both zeros, one of them twice, around an integer zero. -/
def zeros : List Feature :=
  [⟨"Numeric", .double ⟨0x8000000000000000⟩⟩, ⟨"Numeric", .double ⟨0⟩⟩, ⟨"Int", .integer 0⟩,
    ⟨"Numeric", .double ⟨0x8000000000000000⟩⟩]

theorem tells_ofList_zeros :
    (ofList zeros).keys.Nodup ∧ (ofList zeros).count ⟨"Numeric", .double ⟨0⟩⟩ = 1 ∧
      (ofList zeros).count ⟨"Numeric", .double ⟨0x8000000000000000⟩⟩ = 2 ∧
      (ofList zeros).count ⟨"Numeric", .integer 0⟩ = 0 ∧ (ofList zeros).total = 4 ∧
      ∀ f, (ofList zeros.reverse).count f = (ofList zeros).count f := by
  obtain ⟨htells, hnodup, -, -, -, hperm⟩ := tells_ofList zeros
  refine ⟨hnodup, ?_, ?_, ?_, htells.total_eq, fun f => ?_⟩
  · rw [htells.count_eq]
    decide
  · rw [htells.count_eq]
    decide
  · rw [htells.count_eq]
    decide
  · exact (((hperm zeros.reverse).mpr zeros.reverse_perm.symm).2 f).symm

end Frequencies

end ScriptFeatures
