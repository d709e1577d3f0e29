import ScriptFeatures.Proofs.Feature.Emission
import ScriptFeatures.Proofs.Store.Disk

/-!
Snapshots of extracted features. The lines of a snapshot are sorted by counts,
contexts and shown texts, and sorting leaves lines that tie on all three as they
come. Lines of extracted features never tie, since the context of a feature
says of which type its value is. So there is one snapshot for some sources
(`Store.IsSnapshot.eq`): neither the order in which they are recorded, nor the
order in which a store lists its entries, nor where they are stored shows.
-/

namespace ScriptFeatures

namespace Store

/-! ### The order of lines -/

/-- A line stands before another: it counts more sources, or as many and its
context comes first, or its context is the same and the text that its value is
shown as comes first. -/
def Precedes (a b : Feature × ℕ) : Prop :=
  b.2 < a.2 ∨ a.2 = b.2 ∧ (a.1.context < b.1.context ∨
    a.1.context = b.1.context ∧ a.1.value.text < b.1.value.text)

def Entry.keyOrder : Entry → Entry → Ordering :=
  compareLex (fun a b => compareOn Entry.count b a)
    (compareLex (compareOn fun e => e.feature.context) (compareOn Entry.shown))

instance : Std.TransCmp Entry.keyOrder :=
  inferInstanceAs (Std.TransCmp (compareLex _ (compareLex _ _)))

/-- The comparison of entries that the store in memory settles ties with. -/
theorem Entry.compare_eq (a b : Entry) :
    a.compare b = (Entry.keyOrder a b).then
      (compareLex (compareOn fun e => e.feature.value.rank)
        (compareOn fun e => e.feature.value.bytesRank) a b) := by
  simp only [Entry.compare, Entry.keyOrder, compareLex, compareOn, Ordering.then_assoc]

instance : Std.TransCmp Entry.compare := by
  have heq : Entry.compare = compareLex Entry.keyOrder
      (compareLex (compareOn fun e => e.feature.value.rank)
        (compareOn fun e => e.feature.value.bytesRank)) :=
    funext fun a => funext fun b => a.compare_eq b
  rw [heq]
  infer_instance

def lineOrder (a b : Feature × ℕ) : Ordering := (Entry.of a.1 a.2).keyOrder (.of b.1 b.2)

theorem lineOrder_eq_lt {a b : Feature × ℕ} : lineOrder a b = .lt ↔ Precedes a b := by
  have hstring (s t : String) : Ord.compare s t = .lt ↔ s < t := compareOfLessAndEq_eq_lt
  simp only [lineOrder, Entry.keyOrder, Entry.of, Precedes, compareLex, compareOn,
    Ordering.then_eq_lt, Nat.compare_eq_lt, hstring,
    Std.LawfulEqOrd.compare_eq_iff_eq, eq_comm (a := b.2)]

/-- Lines of extracted features that tie are equal. -/
theorem eq_of_lineOrder_eq {a b : Feature × ℕ} (ha : a.1.Emitted) (hb : b.1.Emitted)
    (h : lineOrder a b = .eq) : a = b := by
  simp only [lineOrder, Entry.keyOrder, Entry.of, compareLex, compareOn, Ordering.then_eq_eq,
    Std.LawfulEqOrd.compare_eq_iff_eq] at h
  obtain ⟨hcount, hcontext, hshown⟩ := h
  exact Prod.ext (ha.eq_of_text_eq hb hcontext hshown) hcount.symm

/-! ### Sorted lines -/

/-- The lines are sorted by the three keys, those that tie in either order. -/
def Sorted (lines : List (Feature × ℕ)) : Prop :=
  lines.Pairwise fun a b => (lineOrder a b).isLE = true

theorem sorted_mergeSort (cmp : Entry → Entry → Ordering) [Std.TransCmp cmp]
    (hcmp : ∀ a b, (cmp a b).isLE = true → (a.keyOrder b).isLE = true)
    (entries : List (Feature × ℕ)) :
    Sorted (((entries.map fun e => Entry.of e.1 e.2).mergeSort fun a b => (cmp a b).isLE).map
      fun e => (e.feature, e.count)) := by
  have htotal (a b : Entry) : ((cmp a b).isLE || (cmp b a).isLE) = true := by
    have hswap : cmp b a = (cmp a b).swap := Std.OrientedCmp.eq_swap
    rw [hswap]
    cases cmp a b <;> rfl
  have hsorted := @List.pairwise_mergeSort Entry (fun a b => (cmp a b).isLE)
    (fun _ _ _ => Std.TransCmp.isLE_trans) htotal (entries.map fun e => Entry.of e.1 e.2)
  rw [Sorted, List.pairwise_map]
  refine hsorted.imp_of_mem fun ha hb hle => ?_
  obtain ⟨e, -, rfl⟩ := List.mem_map.mp (List.mem_mergeSort.mp ha)
  obtain ⟨e', -, rfl⟩ := List.mem_map.mp (List.mem_mergeSort.mp hb)
  exact hcmp _ _ hle

theorem sorted_snapshot (s : Store) : Sorted s.snapshot :=
  sorted_mergeSort Entry.compare (fun a b h => by
    rw [Entry.compare_eq, Ordering.isLE_then_iff_and] at h
    exact h.1) s.counts.toList

/-- The entries of a store, in the order in which it lists them, sorted by the
three keys alone. Those that tie stay as they are listed. -/
def sortedLines (entries : List (Feature × ℕ)) : List (Feature × ℕ) :=
  ((entries.map fun e => Entry.of e.1 e.2).mergeSort DiskStore.precedes).map fun e =>
    (e.feature, e.count)

theorem sorted_sortedLines (entries : List (Feature × ℕ)) : Sorted (sortedLines entries) :=
  sorted_mergeSort Entry.keyOrder (fun _ _ h => h) entries

theorem sortedLines_perm (entries : List (Feature × ℕ)) : (sortedLines entries).Perm entries := by
  have hsort := (List.mergeSort_perm (entries.map fun e => Entry.of e.1 e.2)
    DiskStore.precedes).map fun e => (e.feature, e.count)
  rw [List.map_map] at hsort
  exact hsort.trans (.of_eq (List.map_id entries))

/-- What is read back from the keys on disk are lines in the order of the
keys. -/
theorem exists_of_mapM_snapshotLine? {k : KeyCoding} {stored : List (Bytes × Bytes)}
    {entries : List Entry} (h : stored.mapM (DiskStore.snapshotLine? k) = some entries) :
    ∃ listed : List (Feature × ℕ), entries = listed.map fun e => Entry.of e.1 e.2 := by
  induction stored generalizing entries with
  | nil =>
    cases h
    exact ⟨[], rfl⟩
  | cons entry stored ih =>
    simp only [List.mapM_cons, Option.bind_eq_bind, Option.bind_eq_some_iff, Option.pure_def,
      Option.some.injEq] at h
    obtain ⟨first, hfirst, rest, hrest, rfl⟩ := h
    obtain ⟨f, -, rfl⟩ := Option.map_eq_some_iff.mp hfirst
    obtain ⟨listed, rfl⟩ := ih hrest
    exact ⟨(f, countOf entry.2) :: listed, rfl⟩

theorem sorted_of_diskSnapshot {k : KeyCoding} {s : DiskStore} {lines : List (Feature × ℕ)}
    (h : s.snapshot k = some lines) : Sorted lines := by
  obtain ⟨entries, hentries, rfl⟩ := Option.map_eq_some_iff.mp h
  obtain ⟨listed, rfl⟩ := exists_of_mapM_snapshotLine? hentries
  exact sorted_sortedLines listed

/-! ### The snapshot of some sources -/

/-- The lines of a snapshot: one for each feature that some sources have, with
the number of those sources, and no two of them tie. -/
structure IsSnapshot (ms : List Frequencies) (lines : List (Feature × ℕ)) : Prop where
  strict : lines.Pairwise Precedes
  mem : ∀ f n, (f, n) ∈ lines ↔ 0 < n ∧ n = documentCount ms f

theorem emitted_of_documentCount_pos {ms : List Frequencies} (hms : ∀ m ∈ ms, m.Extracted)
    {f : Feature} (h : 0 < documentCount ms f) : f.Emitted := by
  obtain ⟨m, hm, hf⟩ := List.countP_pos_iff.mp h
  exact (hms m hm).emitted (of_decide_eq_true hf)

/-- Sorted lines for the features of extracted sources are a snapshot. -/
theorem isSnapshot_of_sorted {ms : List Frequencies} (hms : ∀ m ∈ ms, m.Extracted)
    {lines : List (Feature × ℕ)} (hsorted : Sorted lines) (hnodup : lines.Nodup)
    (hmem : ∀ f n, (f, n) ∈ lines ↔ 0 < n ∧ n = documentCount ms f) : IsSnapshot ms lines where
  strict := by
    have hemitted (e : Feature × ℕ) (he : e ∈ lines) : e.1.Emitted := by
      obtain ⟨hpos, hcount⟩ := (hmem e.1 e.2).mp he
      exact emitted_of_documentCount_pos hms (hcount ▸ hpos)
    refine (hsorted.and hnodup).imp_of_mem fun {a b} ha hb h => lineOrder_eq_lt.mp ?_
    cases horder : lineOrder a b with
    | lt => rfl
    | eq => exact absurd (eq_of_lineOrder_eq (hemitted a ha) (hemitted b hb) horder) h.2
    | gt => simp [horder] at h
  mem := hmem

theorem Precedes.asymm {a b : Feature × ℕ} (hab : Precedes a b) : ¬ Precedes b a := by
  intro hba
  have hlt : (Entry.of a.1 a.2).keyOrder (.of b.1 b.2) = .lt := lineOrder_eq_lt.mpr hab
  have hgt : (Entry.of b.1 b.2).keyOrder (.of a.1 a.2) = .lt := lineOrder_eq_lt.mpr hba
  rw [Std.OrientedCmp.gt_of_lt hgt] at hlt
  contradiction

theorem IsSnapshot.nodup {ms : List Frequencies} {lines : List (Feature × ℕ)}
    (h : IsSnapshot ms lines) : lines.Nodup :=
  h.strict.imp fun hab heq => (heq ▸ hab).asymm (heq ▸ hab)

/-- Some sources have one snapshot. -/
theorem IsSnapshot.eq {ms : List Frequencies} {lines lines' : List (Feature × ℕ)}
    (h : IsSnapshot ms lines) (h' : IsSnapshot ms lines') : lines = lines' := by
  have hperm : lines.Perm lines' := (List.perm_ext_iff_of_nodup h.nodup h'.nodup).mpr fun e => by
    rw [h.mem e.1 e.2, h'.mem e.1 e.2]
  exact hperm.eq_of_pairwise (fun _ _ _ _ hab hba => absurd hba hab.asymm) h.strict h'.strict

theorem IsSnapshot.perm {ms ms' : List Frequencies} {lines : List (Feature × ℕ)}
    (h : IsSnapshot ms lines) (hperm : ms.Perm ms') : IsSnapshot ms' lines where
  strict := h.strict
  mem f n := by rw [h.mem, documentCount, documentCount, hperm.countP_eq]

theorem Answers.Exact.exists_isSnapshot {a : Answers} {ms : List Frequencies} {fs : Set Feature}
    (h : a.Exact ms fs) (hms : ∀ m ∈ ms, m.Extracted)
    (hsorted : ∀ lines, a.snapshot = some lines → Sorted lines) :
    ∃ lines, a.snapshot = some lines ∧ IsSnapshot ms lines := by
  obtain ⟨lines, hlines, hnodup, hmem⟩ := h.snapshot
  exact ⟨lines, hlines, isSnapshot_of_sorted hms (hsorted lines hlines) (.of_map _ hnodup) hmem⟩

end Store

namespace Recording

open Store

variable {ms : List Frequencies}

theorem isDone_map {σ : Type} (s : σ) : IsDone ⟨ms.map fun _ => [], s⟩ := by
  intro fs hfs
  obtain ⟨-, -, rfl⟩ := List.mem_map.mp hfs
  rfl

theorem count_eq_documentCount (hms : ∀ m ∈ ms, m.Extracted) {counted : List Feature}
    (hperm : counted.Perm (ms.flatMap (·.distinct.toList))) (f : Feature) :
    counted.count f = documentCount ms f := by
  rw [hperm.count_eq, count_flatMap_distinct fun m hm => (hms m hm).indexed]

theorem Run.isSnapshot (hms : ∀ m ∈ ms, m.Extracted) {r : Recording Store}
    (hrun : Run Store.increment (start .empty ms) r) (hdone : r.IsDone) :
    IsSnapshot ms r.store.snapshot := by
  obtain ⟨counted, hstore, hperm⟩ := hrun.counted_of_isDone hdone
  obtain ⟨listed, hlists⟩ := Store.lists_foldl counted
  have hexact : (r.store.answers).Exact ms ∅ := by
    rw [hstore]
    exact hlists.exact (count_eq_documentCount hms hperm) fun f hf => absurd hf (Set.notMem_empty f)
  obtain ⟨lines, hlines, hsnapshot⟩ := hexact.exists_isSnapshot hms fun lines hlines => by
    cases hlines
    exact r.store.sorted_snapshot
  cases hlines
  exact hsnapshot

theorem Run.isSnapshot_disk (hms : ∀ m ∈ ms, m.Extracted) {k : KeyCoding} {fs : Set Feature}
    (hk : k.Faithful fs) (hfs : ∀ m ∈ ms, ∀ f ∈ m.distinct, f ∈ fs)
    (hfits : ∀ f, documentCount ms f < 0x10000000000000000) {r : Recording DiskStore}
    (hrun : Run (DiskStore.increment k) (start .empty ms) r) (hdone : r.IsDone) :
    ∃ lines, r.store.snapshot k = some lines ∧ IsSnapshot ms lines := by
  obtain ⟨counted, hstore, hperm⟩ := hrun.counted_of_isDone hdone
  have hcount := count_eq_documentCount hms hperm
  have hcounted : ∀ f ∈ counted, f ∈ fs := by
    intro f hf
    obtain ⟨m, hm, hfm⟩ := List.mem_flatMap.mp (hperm.mem_iff.mp hf)
    exact hfs m hm f (Array.mem_toList_iff.mp hfm)
  have hexact : (r.store.answers k).Exact ms ∅ := by
    rw [hstore]
    obtain ⟨listed, hlists⟩ := (DiskStore.Holds.foldl hk hcounted).lists hk hcounted fun f => by
      rw [hcount]
      exact hfits f
    exact hlists.exact hcount fun f hf => absurd hf (Set.notMem_empty f)
  exact hexact.exists_isSnapshot hms fun lines => sorted_of_diskSnapshot

/-- Extracted sources have one snapshot, whose lines are strictly sorted. It is
what the store in memory gives after any run in which the sources, in any
order, are recorded, whatever the order in which it lists its entries, and what
the store on disk gives. On disk the features read back from their keys and the
counts fit their entries. -/
theorem exists_snapshot (hms : ∀ m ∈ ms, m.Extracted) :
    ∃ lines : List (Feature × ℕ), lines.Pairwise Precedes ∧
      (∀ f n, (f, n) ∈ lines ↔ 0 < n ∧ n = documentCount ms f) ∧
      ∀ ms' : List Frequencies, ms'.Perm ms →
        (Run Store.increment (start .empty ms')
            ⟨ms'.map fun _ => [], ms'.foldl .record .empty⟩ ∧
          ∀ r, Run Store.increment (start .empty ms') r → r.IsDone →
            r.store.snapshot = lines ∧
            ∀ entries : List (Feature × ℕ), entries.Perm r.store.counts.toList →
              sortedLines entries = lines) ∧
        ∀ (k : KeyCoding) (fs : Set Feature), k.Faithful fs →
          (∀ m ∈ ms, ∀ f ∈ m.distinct, f ∈ fs) →
          (∀ f, documentCount ms f < 0x10000000000000000) →
          Run (DiskStore.increment k) (start .empty ms')
            ⟨ms'.map fun _ => [], ms'.foldl (.record k) .empty⟩ ∧
          ∀ r, Run (DiskStore.increment k) (start .empty ms') r → r.IsDone →
            r.store.snapshot k = some lines := by
  have hrecorded : Run Store.increment (start .empty ms) _ := run_foldl _ ms
  have hlines := hrecorded.isSnapshot hms (isDone_map _)
  refine ⟨_, hlines.strict, hlines.mem, fun ms' hperm => ?_⟩
  have hms' : ∀ m ∈ ms', m.Extracted := fun m hm => hms m (hperm.mem_iff.mp hm)
  have hcount : documentCount ms' = documentCount ms := funext fun f => hperm.countP_eq _
  refine ⟨⟨run_foldl _ ms', fun r hrun hrdone => ?_⟩, fun k fs hk hfs hfits => ?_⟩
  · have hsnapshot := hrun.isSnapshot hms' hrdone
    refine ⟨(hsnapshot.perm hperm).eq hlines, fun entries hentries => ?_⟩
    have hsame := (sortedLines_perm entries).trans (hentries.trans r.store.snapshot_perm.symm)
    have hlisted := isSnapshot_of_sorted hms' (sorted_sortedLines entries)
      (hsame.nodup_iff.mpr hsnapshot.nodup) fun f n => by rw [hsame.mem_iff, hsnapshot.mem]
    exact (hlisted.perm hperm).eq hlines
  · refine ⟨run_foldl _ ms', fun r hrun hrdone => ?_⟩
    obtain ⟨lines, hstored, hsnapshot⟩ := hrun.isSnapshot_disk hms' hk
      (fun m hm => hfs m (hperm.mem_iff.mp hm)) (hcount ▸ hfits) hrdone
    rw [hstored, (hsnapshot.perm hperm).eq hlines]

/-- The number 1 and the text `1` are shown alike, each in one source. -/
theorem exists_snapshot_ones :
    ∃ lines : List (Feature × ℕ), lines.Pairwise Precedes ∧
      (⟨"Int", .integer 1⟩, 1) ∈ lines ∧ (⟨"String", .string "1"⟩, 1) ∈ lines ∧
      ([numberOne, textOne].foldl Store.record .empty).snapshot = lines ∧
      ([textOne, numberOne].foldl Store.record .empty).snapshot = lines ∧
      ([textOne, numberOne].foldl (DiskStore.record .binary) .empty).snapshot .binary =
        some lines := by
  have hms : ∀ m ∈ [numberOne, textOne], m.Extracted := by
    simp [extracted_numberOne, extracted_textOne]
  obtain ⟨lines, hstrict, hmem, hlines⟩ := exists_snapshot hms
  have hnumber : documentCount [numberOne, textOne] ⟨"Int", .integer 1⟩ = 1 := by
    simp [documentCount, numberOne, textOne, Frequencies.count_ofList]
  have htext : documentCount [numberOne, textOne] ⟨"String", .string "1"⟩ = 1 := by
    simp [documentCount, numberOne, textOne, Frequencies.count_ofList]
  have hswap : [textOne, numberOne].Perm [numberOne, textOne] := .swap ..
  obtain ⟨⟨hrun, hmemory⟩, -⟩ := hlines _ (.refl _)
  obtain ⟨⟨hrun', hmemory'⟩, hdisk⟩ := hlines _ hswap
  have hfits : ∀ m ∈ [numberOne, textOne], ∀ f ∈ m.distinct, f ∈ {f : Feature | f.Fits} := by
    intro m hm f hf
    simp only [List.mem_cons, List.not_mem_nil, or_false] at hm
    rcases hm with rfl | rfl
    · rw [numberOne, distinct_ofList_singleton] at hf
      obtain rfl := Array.mem_singleton.mp hf
      exact ⟨by decide, by decide, by decide⟩
    · rw [textOne, distinct_ofList_singleton] at hf
      obtain rfl := Array.mem_singleton.mp hf
      exact ⟨by decide, show "1".utf8ByteSize < 0x10000000000000000 by decide⟩
  obtain ⟨hrun'', hdisk⟩ := hdisk .binary _ KeyCoding.binary_faithful hfits fun f =>
    Nat.lt_of_le_of_lt List.countP_le_length (by decide)
  exact ⟨lines, hstrict, (hmem _ _).mpr ⟨Nat.one_pos, hnumber.symm⟩,
    (hmem _ _).mpr ⟨Nat.one_pos, htext.symm⟩, (hmemory _ hrun (isDone_map _)).1,
    (hmemory' _ hrun' (isDone_map _)).1, hdisk _ hrun'' (isDone_map _)⟩

end Recording

end ScriptFeatures
