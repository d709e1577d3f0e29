import Mathlib.Data.Set.List
import ScriptFeatures.Proofs.Store.Counts

/-!
The store on disk after some counts. Under the key of each feature counted
stands the number of times it was, and no other key is there
(`DiskStore.Holds`), so the entries in key order are those of a list of the
features. With this both stores answer, for any interleaving of the calls that
record some sources, in how many of the sources each feature is.
-/

namespace ScriptFeatures

theorem mapM_eq_some {α β : Type} {read : α → Option β} {g : α → β} {xs : List α}
    (h : ∀ x ∈ xs, read x = some (g x)) : xs.mapM read = some (xs.map g) := by
  induction xs with
  | nil => rfl
  | cons x xs ih =>
    have hrest := ih fun y hy => h y (List.mem_cons_of_mem x hy)
    rw [List.mapM_cons, h x List.mem_cons_self, hrest]
    rfl

namespace DiskStore

open Store

def answers (k : KeyCoding) (s : DiskStore) : Answers := ⟨s.count? k, s.size, s.snapshot k⟩

def entryOf (k : KeyCoding) (counted : List Feature) (f : Feature) : Bytes × Bytes :=
  (k.encode f, countBytes (counted.count f))

/-- The entries are those of some features of a set, by how often each was
counted. -/
structure Holds (k : KeyCoding) (fs : Set Feature) (counted : List Feature) (s : DiskStore) :
    Prop where
  entry : ∀ f ∈ fs, s.entries[k.encode f]? =
    if counted.count f = 0 then none else some (countBytes (counted.count f))
  key : ∀ key ∈ s.entries, ∃ f ∈ counted, k.encode f = key

namespace Holds

variable {k : KeyCoding} {fs : Set Feature} {counted : List Feature} {s : DiskStore}

theorem empty : Holds k fs [] .empty where
  entry _ _ := Std.TreeMap.getElem?_emptyc
  key _ hkey := absurd hkey Std.TreeMap.not_mem_emptyc

theorem increment (hk : k.Faithful fs) (h : Holds k fs counted s) {g : Feature} (hg : g ∈ fs) :
    Holds k fs (counted ++ [g]) (s.increment k g) := by
  constructor
  · intro f hf
    rw [DiskStore.increment, Std.TreeMap.getElem?_insert, List.count_append]
    by_cases heq : g = f
    · subst heq
      have hkey : compare (k.encode g) (k.encode g) = .eq := Std.compare_eq_iff_eq.mpr rfl
      rw [if_pos hkey, count?, h.entry g hg]
      by_cases hzero : counted.count g = 0
      · simp [hzero]
      · simp [hzero, countBytes_succ]
    · have hkey : compare (k.encode g) (k.encode f) ≠ .eq := fun hcompare =>
        heq ((hk.encode_inj hg hf).mp (Std.compare_eq_iff_eq.mp hcompare))
      have hnone : List.count f [g] = 0 := by simp [heq]
      rw [if_neg hkey, h.entry f hf, hnone, Nat.add_zero]
  · intro key hkey
    rw [DiskStore.increment, Std.TreeMap.mem_insert] at hkey
    rcases hkey with hnew | hold
    · exact ⟨g, List.mem_append_right counted List.mem_cons_self, Std.compare_eq_iff_eq.mp hnew⟩
    · obtain ⟨f, hf, rfl⟩ := h.key key hold
      exact ⟨f, List.mem_append_left [g] hf, rfl⟩

theorem foldl_increment {earlier : List Feature} (hk : k.Faithful fs) (h : Holds k fs earlier s)
    (hcounted : ∀ f ∈ counted, f ∈ fs) :
    Holds k fs (earlier ++ counted) (counted.foldl (DiskStore.increment k) s) := by
  induction counted using List.reverseRecOn with
  | nil =>
    rw [List.append_nil]
    exact h
  | append_singleton counted g ih =>
    have hbefore := ih fun f hf => hcounted f (List.mem_append_left [g] hf)
    have hg := hcounted g (List.mem_append_right counted List.mem_cons_self)
    rw [List.foldl_append, ← List.append_assoc]
    exact hbefore.increment hk hg

theorem foldl (hk : k.Faithful fs) (hcounted : ∀ f ∈ counted, f ∈ fs) :
    Holds k fs counted (counted.foldl (DiskStore.increment k) .empty) :=
  empty.foldl_increment hk hcounted

theorem record {earlier : List Feature} (hk : k.Faithful fs) (h : Holds k fs earlier s)
    {ms : List Frequencies} (hms : ∀ m ∈ ms, ∀ f ∈ m.distinct, f ∈ fs) :
    Holds k fs (earlier ++ ms.flatMap (·.distinct.toList)) (ms.foldl (DiskStore.record k) s) := by
  have hfold : ms.foldl (DiskStore.record k) s = _ := foldl_distinct ms (DiskStore.increment k) s
  rw [hfold]
  exact h.foldl_increment hk (forall_mem_flatMap_distinct hms)

theorem exists_toList_eq (h : Holds k fs counted s) (hcounted : ∀ f ∈ counted, f ∈ fs) :
    ∃ listed : List Feature, (∀ f ∈ listed, f ∈ counted) ∧
      s.entries.toList = listed.map (entryOf k counted) := by
  have hrange : s.entries.toList ∈
      Set.range (List.map fun f : {f // f ∈ counted} => entryOf k counted f) := by
    rw [Set.range_list_map]
    rintro ⟨key, bytes⟩ hmem
    rw [Std.TreeMap.mem_toList_iff_getElem?_eq_some] at hmem
    have hkey : key ∈ s.entries := by
      rw [Std.TreeMap.mem_iff_isSome_getElem?, hmem]
      rfl
    obtain ⟨f, hf, rfl⟩ := h.key key hkey
    have hpos : counted.count f ≠ 0 := Nat.ne_of_gt (List.count_pos_iff.mpr hf)
    rw [h.entry f (hcounted f hf), if_neg hpos, Option.some.injEq] at hmem
    subst hmem
    exact ⟨⟨f, hf⟩, rfl⟩
  obtain ⟨listed, hlisted⟩ := hrange
  refine ⟨listed.map Subtype.val, ?_, ?_⟩
  · intro f hf
    obtain ⟨g, -, rfl⟩ := List.mem_map.mp hf
    exact g.2
  · rw [← hlisted, List.map_map]
    rfl

theorem count?_eq (h : Holds k fs counted s)
    (hfits : ∀ f, counted.count f < 0x10000000000000000) {f : Feature} (hf : f ∈ fs) :
    s.count? k f = if counted.count f = 0 then none else some (counted.count f) := by
  rw [count?, h.entry f hf]
  by_cases hzero : counted.count f = 0
  · simp [hzero]
  · simp [hzero, countOf_countBytes, Nat.mod_eq_of_lt (hfits f)]

theorem lists (hk : k.Faithful fs) (h : Holds k fs counted s) (hcounted : ∀ f ∈ counted, f ∈ fs)
    (hfits : ∀ f, counted.count f < 0x10000000000000000) :
    ∃ listed, (s.answers k).Lists counted listed := by
  obtain ⟨listed, hsub, hlisted⟩ := h.exists_toList_eq hcounted
  have hread (f : Feature) (hf : f ∈ listed) :
      snapshotLine? k (entryOf k counted f) = some (.of f (counted.count f)) := by
    have hkey := hk f (hcounted f (hsub f hf))
    simp [snapshotLine?, entryOf, hkey, countOf_countBytes, Nat.mod_eq_of_lt (hfits f)]
  have hentries : s.entries.toList.mapM (snapshotLine? k) =
      some (listed.map fun f => .of f (counted.count f)) := by
    rw [hlisted, List.mapM_map]
    exact mapM_eq_some hread
  refine ⟨listed, ?_, ?_, ?_, ?_⟩
  · -- equal features would give two entries with one key
    have hdistinct := @Std.TreeMap.distinct_keys_toList _ _ _ s.entries _
    rw [hlisted, List.pairwise_map] at hdistinct
    refine hdistinct.imp fun hne heq => hne ?_
    rw [heq]
    exact Std.compare_eq_iff_eq.mpr rfl
  · intro f
    refine ⟨hsub f, fun hf => ?_⟩
    have hpos : counted.count f ≠ 0 := Nat.ne_of_gt (List.count_pos_iff.mpr hf)
    have hentry := h.entry f (hcounted f hf)
    rw [if_neg hpos, ← Std.TreeMap.mem_toList_iff_getElem?_eq_some, hlisted, List.mem_map]
      at hentry
    obtain ⟨g, hg, heq⟩ := hentry
    have hgf : g = f :=
      (hk.encode_inj (hcounted g (hsub g hg)) (hcounted f hf)).mp (Prod.mk.inj heq).1
    rw [← hgf]
    exact hg
  · change s.entries.size = listed.length
    rw [← Std.TreeMap.length_toList, hlisted, List.length_map]
  · have hsnapshot : s.snapshot k = some (((listed.map fun f =>
        Entry.of f (counted.count f)).mergeSort precedes).map fun e => (e.feature, e.count)) := by
      rw [snapshot, hentries, Option.map_some]
    have hsort := (List.mergeSort_perm (listed.map fun f => Entry.of f (counted.count f))
      precedes).map fun e => (e.feature, e.count)
    rw [List.map_map] at hsort
    exact ⟨_, hsnapshot, hsort⟩

end Holds

end DiskStore

namespace Recording

/-- Sources recorded one after another are a run of the calls that record them,
and after any run in which all calls are done the store answers, about every
feature, in how many of the sources it is. On disk the features read back from
their keys and the counts fit their entries. -/
theorem answers_exact (sources : List (List Feature)) :
    let ms := sources.map Frequencies.ofList
    (Run Store.increment (start .empty ms) ⟨ms.map fun _ => [], ms.foldl .record .empty⟩ ∧
      ∀ r, Run Store.increment (start .empty ms) r → r.IsDone →
        r.store.answers.Exact ms Set.univ) ∧
    ∀ (k : KeyCoding) (fs : Set Feature), k.Faithful fs →
      (∀ source ∈ sources, ∀ f ∈ source, f ∈ fs) →
      (∀ f, documentCount ms f < 0x10000000000000000) →
      Run (DiskStore.increment k) (start .empty ms)
        ⟨ms.map fun _ => [], ms.foldl (.record k) .empty⟩ ∧
      ∀ r, Run (DiskStore.increment k) (start .empty ms) r → r.IsDone →
        (r.store.answers k).Exact ms fs := by
  intro ms
  have hindexed : ∀ m ∈ ms, m.Indexed := by
    intro m hm
    obtain ⟨source, -, rfl⟩ := List.mem_map.mp hm
    exact Frequencies.indexed_ofList source
  -- what has been counted when all is done does not depend on the order
  have hcount {counted : List Feature} (hperm : counted.Perm (ms.flatMap (·.distinct.toList)))
      (f : Feature) : counted.count f = documentCount ms f := by
    rw [hperm.count_eq, count_flatMap_distinct hindexed]
  refine ⟨⟨run_foldl _ ms, fun r hrun hdone => ?_⟩, fun k fs hk hfs hfits => ?_⟩
  · obtain ⟨counted, hstore, hperm⟩ := hrun.counted_of_isDone hdone
    obtain ⟨listed, hlists⟩ := Store.lists_foldl counted
    rw [hstore]
    exact hlists.exact (hcount hperm) fun f _ => Store.count?_foldl counted f
  · refine ⟨run_foldl _ ms, fun r hrun hdone => ?_⟩
    obtain ⟨counted, hstore, hperm⟩ := hrun.counted_of_isDone hdone
    have hcounted : ∀ f ∈ counted, f ∈ fs := by
      intro f hf
      obtain ⟨m, hm, hfm⟩ := List.mem_flatMap.mp (hperm.mem_iff.mp hf)
      obtain ⟨source, hsource, rfl⟩ := List.mem_map.mp hm
      rw [(Frequencies.indexed_ofList source).mem_distinct, Frequencies.count_ofList,
        List.count_pos_iff] at hfm
      exact hfs source hsource f hfm
    have hsmall : ∀ f, counted.count f < 0x10000000000000000 := by
      intro f
      rw [hcount hperm]
      exact hfits f
    have hholds := DiskStore.Holds.foldl hk hcounted
    obtain ⟨listed, hlists⟩ := hholds.lists hk hcounted hsmall
    rw [hstore]
    exact hlists.exact (hcount hperm) fun f hf => hholds.count?_eq hsmall hf

def evalCall : Feature := ⟨"Call", .string "eval"⟩

def minusOne : Feature := ⟨"Int", .integer (-1)⟩

/-- Two sources, of which the first has one feature twice and the second only
this one. -/
def twoSources : List (List Feature) := [[evalCall, minusOne, evalCall], [evalCall]]

theorem pending_twoSources : (twoSources.map Frequencies.ofList).map (·.distinct.toList) =
    [[evalCall, minusOne], [evalCall]] := by
  have hadd (m : Frequencies) (f : Feature) :
      (m.add f).distinct = if m.count f = 0 then m.distinct.push f else m.distinct := rfl
  have hempty : Frequencies.empty.distinct = #[] := rfl
  simp [twoSources, Frequencies.ofList, hadd, hempty, Frequencies.count_add,
    Frequencies.count_empty, evalCall, minusOne]

/-- The second source is counted between the features of the first. -/
theorem run_twoSources {σ : Type} (increment : σ → Feature → σ) (s : σ) :
    Run increment (start s (twoSources.map Frequencies.ofList))
      ⟨[[], []], increment (increment (increment s evalCall) evalCall) minusOne⟩ := by
  rw [start, pending_twoSources]
  have hfirst : Step increment ⟨[[evalCall, minusOne], [evalCall]], s⟩ _ :=
    .count [] [[evalCall]] evalCall [minusOne] s
  have hsecond : Step increment ⟨[[minusOne], [evalCall]], increment s evalCall⟩ _ :=
    .count [[minusOne]] [] evalCall [] _
  have hthird : Step increment ⟨[[minusOne], []], increment (increment s evalCall) evalCall⟩ _ :=
    .count [] [[]] minusOne [] _
  exact ((Relation.ReflTransGen.single hfirst).tail hsecond).tail hthird

theorem documentCount_twoSources :
    documentCount (twoSources.map Frequencies.ofList) evalCall = 2 ∧
      documentCount (twoSources.map Frequencies.ofList) minusOne = 1 := by
  simp [documentCount, twoSources, Frequencies.count_ofList, evalCall, minusOne]

theorem answers_twoSources :
    (∃ r, Run Store.increment (start .empty (twoSources.map Frequencies.ofList)) r ∧ r.IsDone ∧
      r.store.answers.count? evalCall = some 2 ∧ r.store.answers.count? minusOne = some 1) ∧
    ∃ r, Run (DiskStore.increment .binary) (start .empty (twoSources.map Frequencies.ofList)) r ∧
      r.IsDone ∧ (r.store.answers .binary).count? evalCall = some 2 ∧
      (r.store.answers .binary).count? minusOne = some 1 := by
  obtain ⟨⟨-, hmemory⟩, hdisk⟩ := answers_exact twoSources
  obtain ⟨heval, hminus⟩ := documentCount_twoSources
  have hdone {σ : Type} (s : σ) : IsDone ⟨[[], []], s⟩ := by
    intro fs hfs
    simpa using hfs
  have hevalFits : evalCall.Fits := by
    constructor
    · decide
    · show "eval".utf8ByteSize < 0x10000000000000000
      decide
  have hminusFits : minusOne.Fits := by
    constructor
    · decide
    · show (-0x8000000000000000 : Int) ≤ -1 ∧ (-1 : Int) < 0x8000000000000000
      decide
  have hfits : ∀ source ∈ twoSources, ∀ f ∈ source, f ∈ {f : Feature | f.Fits} := by
    simp [twoSources, hevalFits, hminusFits]
  have hsmall (f : Feature) :
      documentCount (twoSources.map Frequencies.ofList) f < 0x10000000000000000 :=
    Nat.lt_of_le_of_lt List.countP_le_length (by decide)
  obtain ⟨-, hdisk⟩ := hdisk .binary _ KeyCoding.binary_faithful hfits hsmall
  refine ⟨⟨_, run_twoSources _ _, hdone _, ?_, ?_⟩, ⟨_, run_twoSources _ _, hdone _, ?_, ?_⟩⟩
  · rw [(hmemory _ (run_twoSources _ _) (hdone _)).count? evalCall trivial, heval]
    rfl
  · rw [(hmemory _ (run_twoSources _ _) (hdone _)).count? minusOne trivial, hminus]
    rfl
  · rw [(hdisk _ (run_twoSources _ _) (hdone _)).count? evalCall hevalFits, heval]
    rfl
  · rw [(hdisk _ (run_twoSources _ _) (hdone _)).count? minusOne hminusFits, hminus]
    rfl

end Recording

end ScriptFeatures
