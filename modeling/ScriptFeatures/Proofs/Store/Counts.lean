import Mathlib.Data.Set.Card
import ScriptFeatures.Proofs.Feature.Frequency
import ScriptFeatures.Proofs.Store.Key
import ScriptFeatures.Proofs.Store.Recording

/-!
What a store answers after some sources were recorded. The count of a feature
is the number of the sources that have it (`documentCount`), whatever the order
in which the calls that record them count (`Store.Answers.Exact`). The store in
memory keeps counts under features; the one on disk keeps bytes under keys and
counts the same as long as the features read back from their keys and the counts
fit their entries.
-/

namespace ScriptFeatures

/-- The number of sources that have a feature. -/
def documentCount (ms : List Frequencies) (f : Feature) : Nat :=
  ms.countP fun m => 0 < m.count f

theorem count_flatMap_distinct {ms : List Frequencies} (hms : ∀ m ∈ ms, m.Indexed)
    (f : Feature) : (ms.flatMap (·.distinct.toList)).count f = documentCount ms f := by
  induction ms with
  | nil => rfl
  | cons m ms ih =>
    have hm := hms m List.mem_cons_self
    have hrest := ih fun m' hm' => hms m' (List.mem_cons_of_mem m hm')
    rw [List.flatMap_cons, List.count_append, hrest, documentCount, documentCount,
      List.countP_cons, hm.nodup.count, Nat.add_comm]
    simp only [hm.mem_distinct, decide_eq_true_eq]

/-- Recording sources counts their distinct features, one source after the
other. -/
theorem foldl_distinct {σ : Type} (ms : List Frequencies) (increment : σ → Feature → σ) (s : σ) :
    ms.foldl (fun s m => m.distinct.foldl increment s) s =
      (ms.flatMap (·.distinct.toList)).foldl increment s := by
  rw [List.foldl_flatMap]
  simp only [Array.foldl_toList]

theorem forall_mem_flatMap_distinct {ms : List Frequencies} {fs : Set Feature}
    (h : ∀ m ∈ ms, ∀ f ∈ m.distinct, f ∈ fs) : ∀ f ∈ ms.flatMap (·.distinct.toList), f ∈ fs := by
  intro f hf
  obtain ⟨m, hm, hfm⟩ := List.mem_flatMap.mp hf
  exact h m hm f (Array.mem_toList_iff.mp hfm)

namespace Store

/-! ### Answers -/

/-- What can be asked of a store. A snapshot may fail. -/
structure Answers where
  count? : Feature → Option Nat
  size : Nat
  snapshot : Option (List (Feature × Nat))

/-- The answers are those for some sources: about each feature of a set, about
how many features there are, and about all of them at once. -/
structure Answers.Exact (a : Answers) (ms : List Frequencies) (fs : Set Feature) : Prop where
  count? : ∀ f ∈ fs, a.count? f =
    if documentCount ms f = 0 then none else some (documentCount ms f)
  size : a.size = {f | 0 < documentCount ms f}.ncard
  snapshot : ∃ entries, a.snapshot = some entries ∧ (entries.map Prod.fst).Nodup ∧
    ∀ f n, (f, n) ∈ entries ↔ 0 < n ∧ n = documentCount ms f

/-- A store has counted some features if its entries are those of a list that
has each of them once. -/
structure Answers.Lists (a : Answers) (counted listed : List Feature) : Prop where
  nodup : listed.Nodup
  mem {f : Feature} : f ∈ listed ↔ f ∈ counted
  size : a.size = listed.length
  snapshot : ∃ entries, a.snapshot = some entries ∧
    entries.Perm (listed.map fun f => (f, counted.count f))

/-- What such a store lists. -/
theorem Answers.Lists.exists_entries {a : Answers} {counted listed : List Feature}
    (h : a.Lists counted listed) :
    ∃ entries, a.snapshot = some entries ∧ (entries.map Prod.fst).Nodup ∧
      ∀ f n, (f, n) ∈ entries ↔ 0 < n ∧ n = counted.count f := by
  obtain ⟨entries, hentries, hperm⟩ := h.snapshot
  refine ⟨entries, hentries, ?_, fun f n => ?_⟩
  · have hfst := hperm.map Prod.fst
    rw [List.map_map] at hfst
    have hid : (listed.map (Prod.fst ∘ fun f => (f, counted.count f))) = listed := List.map_id _
    rw [hid] at hfst
    exact hfst.nodup_iff.mpr h.nodup
  · rw [hperm.mem_iff, List.mem_map]
    constructor
    · rintro ⟨g, hg, heq⟩
      obtain ⟨rfl, rfl⟩ := Prod.mk.inj heq
      exact ⟨List.count_pos_iff.mpr (h.mem.mp hg), rfl⟩
    · rintro ⟨hpos, rfl⟩
      exact ⟨f, h.mem.mpr (List.count_pos_iff.mp hpos), rfl⟩

theorem Answers.Lists.alike {a b : Answers} {counted listed listed' : List Feature}
    (ha : a.Lists counted listed) (hb : b.Lists counted listed') :
    a.size = b.size ∧ ∃ lines lines', a.snapshot = some lines ∧ b.snapshot = some lines' ∧
      lines.Perm lines' := by
  have hlisted : listed.Perm listed' := by
    rw [List.perm_ext_iff_of_nodup ha.nodup hb.nodup]
    intro f
    rw [ha.mem, hb.mem]
  obtain ⟨lines, hlines, hperm⟩ := ha.snapshot
  obtain ⟨lines', hlines', hperm'⟩ := hb.snapshot
  refine ⟨?_, lines, lines', hlines, hlines', ?_⟩
  · rw [ha.size, hb.size, hlisted.length_eq]
  · exact (hperm.trans (hlisted.map _)).trans hperm'.symm

theorem Answers.Lists.exact {a : Answers} {counted listed : List Feature} {ms : List Frequencies}
    {fs : Set Feature} (h : a.Lists counted listed)
    (hcounted : ∀ f, counted.count f = documentCount ms f)
    (hcount : ∀ f ∈ fs, a.count? f =
      if counted.count f = 0 then none else some (counted.count f)) :
    a.Exact ms fs := by
  have hmem (f : Feature) : f ∈ listed ↔ 0 < documentCount ms f := by
    rw [h.mem, ← hcounted, List.count_pos_iff]
  refine ⟨fun f hf => ?_, ?_, ?_⟩
  · rw [hcount f hf, hcounted]
  · have hset : {f | 0 < documentCount ms f} = ↑listed.toFinset := by
      ext f
      simp [hmem]
    rw [hset, Set.ncard_coe_finset, List.toFinset_card_of_nodup h.nodup, h.size]
  · obtain ⟨entries, hentries, hnodup, hlines⟩ := h.exists_entries
    exact ⟨entries, hentries, hnodup, fun f n => by rw [hlines, hcounted]⟩

/-! ### In memory -/

def answers (s : Store) : Answers := ⟨s.count?, s.size, some s.snapshot⟩

theorem count?_increment (s : Store) (g f : Feature) :
    (s.increment g).count? f =
      if g = f then some ((s.count? g).getD 0 + 1) else s.count? f := by
  rw [increment, count?, Std.HashMap.getElem?_insert]
  by_cases h : g = f
  · rw [if_pos (beq_iff_eq.mpr h), if_pos h]
  · rw [if_neg (fun heq => h (beq_iff_eq.mp heq)), if_neg h]
    rfl

/-- The counts of a store are those of some features, as often as each was
counted. -/
def Holds (counted : List Feature) (s : Store) : Prop :=
  ∀ f, s.count? f = if counted.count f = 0 then none else some (counted.count f)

theorem Holds.increment {counted : List Feature} {s : Store} (h : s.Holds counted) (g : Feature) :
    (s.increment g).Holds (counted ++ [g]) := by
  intro f
  rw [count?_increment, List.count_append]
  by_cases heq : g = f
  · subst heq
    rw [h g]
    by_cases hzero : counted.count g = 0 <;> simp [hzero]
  · have hnone : List.count f [g] = 0 := by simp [heq]
    rw [if_neg heq, h f, hnone, Nat.add_zero]

theorem Holds.foldl {earlier : List Feature} {s : Store} (h : s.Holds earlier)
    (counted : List Feature) : (counted.foldl Store.increment s).Holds (earlier ++ counted) := by
  induction counted using List.reverseRecOn with
  | nil =>
    rw [List.append_nil]
    exact h
  | append_singleton counted g ih =>
    rw [List.foldl_append, ← List.append_assoc]
    exact ih.increment g

theorem holds_empty : empty.Holds [] := fun _ => Std.HashMap.getElem?_empty

theorem count?_foldl (counted : List Feature) (f : Feature) :
    (counted.foldl increment empty).count? f =
      if counted.count f = 0 then none else some (counted.count f) :=
  holds_empty.foldl counted f

theorem Holds.record {counted : List Feature} {s : Store} (h : s.Holds counted)
    (ms : List Frequencies) :
    (ms.foldl Store.record s).Holds (counted ++ ms.flatMap (·.distinct.toList)) := by
  have hfold : ms.foldl Store.record s = _ := foldl_distinct ms Store.increment s
  rw [hfold]
  exact h.foldl _

theorem snapshot_perm (s : Store) : s.snapshot.Perm s.counts.toList := by
  rw [snapshot]
  have hsort := (List.mergeSort_perm (s.counts.toList.map fun p => Entry.of p.1 p.2)
    fun a b => (a.compare b).isLE).map fun e => (e.feature, e.count)
  rw [List.map_map] at hsort
  have hid : s.counts.toList.map ((fun e : Entry => (e.feature, e.count)) ∘
      fun p => Entry.of p.1 p.2) = s.counts.toList := List.map_id _
  rw [hid] at hsort
  exact hsort

theorem Holds.lists {counted : List Feature} {s : Store} (h : s.Holds counted) :
    ∃ listed, s.answers.Lists counted listed := by
  have hentry {f : Feature} {n : Nat} :
      (f, n) ∈ s.counts.toList ↔ n = counted.count f ∧ f ∈ counted := by
    rw [Std.HashMap.mem_toList_iff_getElem?_eq_some]
    change s.count? f = some n ↔ _
    rw [h f, ← List.count_pos_iff]
    by_cases hzero : counted.count f = 0
    · simp [hzero]
    · simp [hzero, Nat.pos_of_ne_zero hzero, eq_comm]
  have hlisted : s.counts.toList =
      (s.counts.toList.map Prod.fst).map fun f => (f, counted.count f) := by
    rw [List.map_map]
    conv_lhs => rw [← List.map_id s.counts.toList]
    refine List.map_congr_left fun entry hmem => ?_
    exact Prod.ext rfl (hentry.mp hmem).1
  refine ⟨s.counts.toList.map Prod.fst, ?_, ?_, ?_, s.snapshot, rfl, ?_⟩
  · rw [List.Nodup, List.pairwise_map]
    exact Std.HashMap.distinct_keys_toList.imp fun hne heq => by simp [heq] at hne
  · intro f
    rw [List.mem_map]
    constructor
    · rintro ⟨entry, hmem, rfl⟩
      exact (hentry.mp hmem).2
    · intro hmem
      exact ⟨(f, counted.count f), hentry.mpr ⟨rfl, hmem⟩, rfl⟩
  · rw [List.length_map, Std.HashMap.length_toList]
    rfl
  · rw [← hlisted]
    exact s.snapshot_perm

theorem lists_foldl (counted : List Feature) :
    ∃ listed, (counted.foldl increment empty).answers.Lists counted listed :=
  (holds_empty.foldl counted).lists

end Store

end ScriptFeatures
