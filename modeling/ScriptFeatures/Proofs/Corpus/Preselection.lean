import ScriptFeatures.Cli.Run
import ScriptFeatures.Proofs.Corpus.Run
import ScriptFeatures.Proofs.Parser.Documents
import ScriptFeatures.Proofs.Report.Contents
import ScriptFeatures.Proofs.Store.Sessions
import ScriptFeatures.Proofs.Store.Snapshot

/-!
What the report of a labelled directory says. The sources are the files of the
directory in the order of their names (`collectSources_eq`), each counts once for a
feature that its document has, and what earlier runs counted under the label is
counted on (`Tally`). The report shows these lines one by one, and the tree of the
label holds them for later runs; the trees of other labels stay as they are.
-/

namespace ScriptFeatures

open Store

/-! ### Sources -/

def fileNames (found : List (String × FileEntry)) : List String :=
  found.filterMap fun entry =>
    match entry.2 with
    | .file _ => some entry.1
    | .directory => none

/-- The sources are the files of a directory, in the order of their names. -/
theorem collectSources_eq {t : FileTree} {directory : String}
    {found : List (String × FileEntry)} (hfound : t.list directory = .ok found) :
    ∃ names : List String, names.Perm (fileNames found) ∧ names.Pairwise (· ≤ ·) ∧
      collectSources t directory = .ok (names.map (Path.join directory)) := by
  let precedes (a b : String) : Bool := (compare a b).isLE
  have htotal (a b : String) : (precedes a b || precedes b a) = true := by
    have hswap : compare b a = (compare a b).swap := Std.OrientedCmp.eq_swap
    simp only [precedes]
    rw [hswap]
    cases compare a b <;> rfl
  have hsorted := @List.pairwise_mergeSort String precedes
    (fun _ _ _ => Std.TransCmp.isLE_trans) htotal (fileNames found)
  refine ⟨(fileNames found).mergeSort precedes, List.mergeSort_perm _ _, ?_, ?_⟩
  · refine hsorted.imp fun {a b} hle => ?_
    have hnot : compare a b ≠ .gt := Ordering.isLE_iff_ne_gt.mp hle
    refine String.not_lt.mp fun hlt => hnot ?_
    have hless : compare b a = .lt := compareOfLessAndEq_eq_lt.mpr hlt
    exact Std.OrientedCmp.gt_of_lt hless
  · rw [collectSources, hfound]
    rfl

/-! ### Counts -/

/-- The lines for some sources that are counted on top of the features that
were counted before: sorted, one for each feature with a count. -/
structure Tally (earlier : List Feature) (ms : List Frequencies) (lines : List (Feature × ℕ)) :
    Prop where
  sorted : Sorted lines
  nodup : (lines.map Prod.fst).Nodup
  mem : ∀ f n, (f, n) ∈ lines ↔ 0 < n ∧ n = earlier.count f + documentCount ms f

section

variable {earlier : List Feature} {ms : List Frequencies}

theorem count_append_distinct (hms : ∀ m ∈ ms, m.Indexed) (f : Feature) :
    (earlier ++ ms.flatMap (·.distinct.toList)).count f =
      earlier.count f + documentCount ms f := by
  rw [List.count_append, count_flatMap_distinct hms]

theorem tally_of_lists (hms : ∀ m ∈ ms, m.Indexed) {a : Answers} {listed : List Feature}
    (h : a.Lists (earlier ++ ms.flatMap (·.distinct.toList)) listed)
    (hsorted : ∀ lines, a.snapshot = some lines → Sorted lines) :
    ∃ lines, a.snapshot = some lines ∧ Tally earlier ms lines := by
  obtain ⟨lines, hlines, hnodup, hmem⟩ := h.exists_entries
  refine ⟨lines, hlines, hsorted lines hlines, hnodup, fun f n => ?_⟩
  rw [hmem, count_append_distinct hms]

theorem Tally.eq_singleton {lines : List (Feature × ℕ)} (h : Tally earlier ms lines)
    {g : Feature} {n : ℕ} (hn : 0 < n)
    (hcount : ∀ f, earlier.count f + documentCount ms f = if f = g then n else 0) :
    lines = [(g, n)] := by
  have hsingle : [(g, n)].Nodup := List.nodup_singleton _
  apply List.perm_singleton.mp
  apply (List.perm_ext_iff_of_nodup h.nodup.of_map hsingle).mpr
  rintro ⟨f, c⟩
  rw [h.mem, hcount, List.mem_singleton, Prod.mk.injEq]
  by_cases hf : f = g
  · simp only [hf, if_true, true_and]
    omega
  · simp only [hf, if_false, false_and, iff_false]
    omega

theorem DiskStore.Holds.tally {k : KeyCoding} {fs : Set Feature} {s : DiskStore}
    (hk : k.Faithful fs) (h : DiskStore.Holds k fs earlier s) (hms : ∀ m ∈ ms, m.Indexed)
    (hearlier : ∀ f ∈ earlier, f ∈ fs) (hfs : ∀ m ∈ ms, ∀ f ∈ m.distinct, f ∈ fs)
    (hfits : ∀ f, earlier.count f + documentCount ms f < 0x10000000000000000) :
    ∃ lines, (ms.foldl (DiskStore.record k) s).snapshot k = some lines ∧
      Tally earlier ms lines := by
  have hcounted : ∀ f ∈ earlier ++ ms.flatMap (·.distinct.toList), f ∈ fs := by
    intro f hf
    rcases List.mem_append.mp hf with hf | hf
    · exact hearlier f hf
    · exact forall_mem_flatMap_distinct hfs f hf
  obtain ⟨listed, hlists⟩ := (h.record hk hfs).lists hk hcounted fun f => by
    rw [count_append_distinct hms]
    exact hfits f
  exact tally_of_lists hms hlists fun _ => sorted_of_diskSnapshot

end

/-! ### Labelled directories -/

theorem Databases.get_set_self (ds : Databases) (place : Location) (db : Database) :
    (ds.set place db).get place = db := by
  rw [get, set, List.lookup_cons_self, Option.getD_some]

theorem indexed_of_featuresOf? {provided : Except Error Descriptor} {m : Frequencies}
    (h : featuresOf? provided = some m) : m.Indexed := by
  cases provided with
  | error e => contradiction
  | ok d =>
    change d.frequencies.toOption = some m at h
    unfold Descriptor.frequencies Tree.frequencies at h
    split at h
    · split at h
      · cases h
        exact Frequencies.indexed_ofList _
      · contradiction
    · contradiction

theorem indexed_filterMap_featuresOf? (provider : String → Except Error Descriptor)
    (paths : List String) :
    ∀ m ∈ paths.filterMap fun path => featuresOf? (provider path), m.Indexed := by
  intro m hm
  obtain ⟨path, -, hpath⟩ := List.mem_filterMap.mp hm
  exact indexed_of_featuresOf? hpath

namespace Cli

variable {k : KeyCoding} {analysisPath directory label : String} {w : World} {files : FileTree}
  {place : Location}

theorem preselectDirectory_eq {provide : FileTree → String → Except Error Descriptor × FileTree}
    {files' : FileTree} {sources : List String} {run : CorpusRun} {store : OpenStore}
    {lines : List (Feature × ℕ)}
    (hmade : w.files.createDirectories analysisPath = (.ok (), files))
    (hsources : collectSources files directory = .ok sources)
    (hextract : CorpusRun.extract provide files sources = (run, files'))
    (hplace : files'.locate analysisPath = .ok place)
    (hstore : (run.record (fun s m => (true, s.record k m))
      (.ofLabel (w.databases.get place) label)).2 = store)
    (hlines : store.snapshot k = some lines) :
    preselectDirectory k provide analysisPath directory label w =
      (.ok (run.report label lines), ⟨files', w.databases.set place store.database⟩) := by
  have hflushed : store.flush.snapshot k = some lines := hlines
  simp only [preselectDirectory, hmade, hsources, hextract, hplace, Except.toOption,
    Option.getD_some, hstore, hflushed]
  rfl

/-- The report of a labelled directory is exact, whatever the order in which
the directory lists its files, whatever the provider gives for each of them,
and whatever earlier runs counted under the label. The files are analysed in
the order of their names and each on its own. The report shows, sorted and each
once, the features that are counted at all, with the number of the sources that
did not fail and have them on top of the earlier counts. This is also what the
database holds under the label after that, and under other labels it holds what
it held. The features read back from their keys, and the counts fit their
entries. -/
theorem preselectDirectory_exact (provider : String → Except Error Descriptor)
    {fs : Set Feature} {found : List (String × FileEntry)} {earlier : List Feature}
    (hk : k.Faithful fs)
    (hmade : w.files.createDirectories analysisPath = (.ok (), files))
    (hplace : files.locate analysisPath = .ok place)
    (hfound : files.list directory = .ok found)
    (hholds : DiskStore.Holds k fs earlier ((w.databases.get place).tree (treeName label)))
    (hearlier : ∀ f ∈ earlier, f ∈ fs) :
    ∃ names : List String, names.Perm (fileNames found) ∧ names.Pairwise (· ≤ ·) ∧
      let provide (t : FileTree) (path : String) := (provider path, t)
      let paths := names.map (Path.join directory)
      let ms := paths.filterMap fun path => featuresOf? (provider path)
      (∀ m ∈ ms, ∀ f ∈ m.distinct, f ∈ fs) →
      (∀ f, earlier.count f + documentCount ms f < 0x10000000000000000) →
      ∃ (run : CorpusRun) (report : CorpusReport) (lines : List (Feature × ℕ)) (db : Database),
        CorpusRun.extract provide files paths = (run, files) ∧
        run.Isolates provider paths ∧
        preselectDirectory k provide analysisPath directory label w =
          (.ok report, ⟨files, w.databases.set place db⟩) ∧
        report.Shows label (fileNames found).length
          (paths.countP fun path => (featuresOf? (provider path)).isNone) lines ∧
        Tally earlier ms lines ∧
        DiskStore.Holds k fs (earlier ++ ms.flatMap (·.distinct.toList))
          (db.tree (treeName label)) ∧
        ∀ other, other ≠ label →
          db.tree (treeName other) = (w.databases.get place).tree (treeName other) := by
  obtain ⟨names, hperm, hsorted, hsources⟩ := collectSources_eq hfound
  refine ⟨names, hperm, hsorted, ?_⟩
  intro provide paths ms hfs hfits
  have hextract : CorpusRun.extract provide files paths = (.ofResults provider paths, files) :=
    CorpusRun.extract_pure provider files paths
  have hms : ∀ m ∈ ms, m.Indexed := indexed_filterMap_featuresOf? provider paths
  let db := w.databases.get place
  let store := ms.foldl (OpenStore.record k) (.ofLabel db label)
  obtain ⟨hcounts, htree, hothers⟩ := @OpenStore.tree_foldl_record k db label ms
  obtain ⟨lines, hlines, htally⟩ := hholds.tally hk hms hearlier hfs hfits
  rw [← hcounts] at hlines
  have hstore := CorpusRun.record_ofResults provider paths (OpenStore.record k) (.ofLabel db label)
  have hreport := preselectDirectory_eq hmade hsources hextract hplace hstore hlines
  refine ⟨.ofResults provider paths, _, lines, store.database, hextract,
    CorpusRun.isolates_ofResults provider paths, hreport, ?shows, htally, ?holds, hothers⟩
  case shows =>
    constructor
    · rfl
    · rw [CorpusRun.report, CorpusRun.analyses_ofResults, List.length_map, List.length_map,
        hperm.length_eq]
    · exact CorpusRun.length_failures_ofResults provider paths
    · exact showsAll_iff.mpr rfl
  case holds =>
    rw [htree, hcounts]
    exact hholds.record hk hfs

/-- Two files that are the literal `true` and one that is not parsed. -/
def sampleDocument (path : String) : Except Error Descriptor :=
  if path = "samples/c.js" then .error (.noTree path "exit status: 1")
  else .ok Parser.literalDescriptor

def sampleEntries : List (String × FileEntry) :=
  [("b.js", .file .empty), ("nested", .directory), ("c.js", .file .empty), ("a.js", .file .empty)]

def trueLiteral : Feature := ⟨"Bool", .bool true⟩

def sampleDatabase : Database :=
  Database.empty.setTree (treeName "benign") (DiskStore.empty.increment .binary trueLiteral)

/-- A working directory with the samples; an earlier run counted one source
that has the literal `true`. -/
def sampleWorld : World where
  files := ⟨["work"], sampleEntries.map (fun entry => (["work", "samples", entry.1], entry.2)) ++
    [(["work", "samples"], .directory), (["work"], .directory)]⟩
  databases := Databases.empty.set ["work", "analysis"] sampleDatabase

theorem featuresOf?_sampleDocument (path : String) : featuresOf? (sampleDocument path) =
    if path = "samples/c.js" then none else some (.ofList [trueLiteral]) := by
  rw [sampleDocument]
  split
  · rfl
  · change Parser.literalDescriptor.frequencies.toOption = _
    rw [Parser.frequencies_literalDescriptor]
    rfl

theorem documentCount_sampleDocument {paths : List String}
    (h : paths.Perm ["samples/b.js", "samples/c.js", "samples/a.js"]) (f : Feature) :
    documentCount (paths.filterMap fun path => featuresOf? (sampleDocument path)) f =
      if f = trueLiteral then 2 else 0 := by
  rw [documentCount, (h.filterMap _).countP_eq]
  by_cases hf : f = trueLiteral
  · subst hf
    have hcount : (Frequencies.ofList [trueLiteral]).count trueLiteral = 1 := by
      rw [Frequencies.count_ofList, List.count_singleton_self]
    simp [featuresOf?_sampleDocument, hcount]
  · have hcount : (Frequencies.ofList [trueLiteral]).count f = 0 := by
      rw [Frequencies.count_ofList, List.count_eq_zero]
      simpa using hf
    simp [featuresOf?_sampleDocument, hcount, hf]

theorem count_sampleDocument {paths : List String}
    (h : paths.Perm ["samples/b.js", "samples/c.js", "samples/a.js"]) (f : Feature) :
    [trueLiteral].count f +
        documentCount (paths.filterMap fun path => featuresOf? (sampleDocument path)) f =
      if f = trueLiteral then 3 else 0 := by
  rw [documentCount_sampleDocument h]
  by_cases hf : f = trueLiteral
  · simp [hf]
  · simp [hf, Ne.symm hf]

theorem fits_trueLiteral : trueLiteral.Fits := ⟨by decide, trivial⟩

theorem fits_sampleDocument (paths : List String) :
    ∀ m ∈ paths.filterMap fun path => featuresOf? (sampleDocument path),
      ∀ f ∈ m.distinct, f ∈ {f : Feature | f.Fits} := by
  intro m hm f hf
  obtain ⟨path, -, hpath⟩ := List.mem_filterMap.mp hm
  rw [featuresOf?_sampleDocument] at hpath
  split at hpath
  · contradiction
  · cases hpath
    rw [distinct_ofList_singleton] at hf
    rw [Array.mem_singleton.mp hf]
    exact fits_trueLiteral

theorem holds_sampleDatabase : DiskStore.Holds .binary {f | f.Fits} [trueLiteral]
    (sampleDatabase.tree (treeName "benign")) := by
  rw [sampleDatabase, Database.tree_setTree_self]
  exact DiskStore.Holds.empty.increment KeyCoding.binary_faithful fits_trueLiteral

/-- Two of the three files are counted on top of what the earlier run counted,
and the database holds this count in the end. -/
theorem preselectDirectory_threeFiles :
    ∃ w : World,
      preselectDirectory .binary (fun t path => (sampleDocument path, t)) "analysis" "samples"
          "benign" sampleWorld =
        (.ok ⟨"benign", 3, 1, [⟨"Bool", .bool true, 3⟩]⟩, w) ∧
      ((w.databases.get ["work", "analysis"]).tree (treeName "benign")).count? .binary
        trueLiteral = some 3 := by
  have hmade : sampleWorld.files.createDirectories "analysis" =
      (.ok (), sampleWorld.files.set ["work", "analysis"] .directory) := by with_unfolding_all rfl
  have hplace : (sampleWorld.files.set ["work", "analysis"] .directory).locate "analysis" =
      .ok ["work", "analysis"] := by with_unfolding_all rfl
  have hfound : (sampleWorld.files.set ["work", "analysis"] .directory).list "samples" =
      .ok sampleEntries := by with_unfolding_all rfl
  have hdatabase : sampleWorld.databases.get ["work", "analysis"] = sampleDatabase := by
    with_unfolding_all rfl
  obtain ⟨names, hperm, -, hexact⟩ := preselectDirectory_exact sampleDocument
    KeyCoding.binary_faithful hmade hplace hfound (hdatabase ▸ holds_sampleDatabase)
    (by simpa using fits_trueLiteral)
  have hpaths := hperm.map (Path.join "samples")
  have hjoined : (fileNames sampleEntries).map (Path.join "samples") =
      ["samples/b.js", "samples/c.js", "samples/a.js"] := by with_unfolding_all rfl
  rw [hjoined] at hpaths
  have hcount := count_sampleDocument hpaths
  have hsmall (f : Feature) : (if f = trueLiteral then 3 else 0) < 0x10000000000000000 := by
    split
    · decide
    · decide
  obtain ⟨run, report, lines, db, -, -, hreport, hshows, htally, hleft, -⟩ :=
    hexact (fits_sampleDocument _) fun f => (hcount f).trans_lt (hsmall f)
  have hone : ((names.map (Path.join "samples")).countP fun path =>
      (featuresOf? (sampleDocument path)).isNone) = 1 := by
    rw [hpaths.countP_eq]
    simp [featuresOf?_sampleDocument]
  obtain ⟨hlabel, hfiles, hfailed, hfeatures⟩ := hshows
  rw [hone] at hfailed
  rw [htally.eq_singleton (by decide) hcount, showsAll_iff] at hfeatures
  have hwhole : report = ⟨"benign", 3, 1, [⟨"Bool", .bool true, 3⟩]⟩ := by
    obtain ⟨label, files, failed, features⟩ := report
    subst hlabel hfiles hfailed hfeatures
    rfl
  have hcounted (f : Feature) :=
    (count_append_distinct (indexed_filterMap_featuresOf? sampleDocument _) f).trans (hcount f)
  have hentry := hleft.count?_eq (fun f => (hcounted f).trans_lt (hsmall f)) fits_trueLiteral
  refine ⟨_, hwhole ▸ hreport, ?_⟩
  rw [Databases.get_set_self, hentry, hcounted]
  rfl

end Cli

end ScriptFeatures
