import ScriptFeatures.Proofs.Feature.Emission
import ScriptFeatures.Proofs.Store.Disk
import ScriptFeatures.Store.Database

/-!
Stores that are opened under labels and closed again, one after another on one
database. Whatever is done with a store changes the tree of its label alone, and
every source that is recorded is recorded in it; flushing, closing and opening
leave the trees as they are. So the tree of a label is that of one store on disk
in which all sources of the label were recorded (`Session.tree_foldl_run`), and
answers as one in memory does.
-/

namespace ScriptFeatures

theorem treeName_inj {label label' : String} (h : treeName label = treeName label') :
    label = label' :=
  String.append_right_inj _ |>.mp h

namespace Database

variable (db : Database) (name : String) (s : DiskStore)

theorem tree_setTree_self : (db.setTree name s).tree name = s := by
  rw [tree, setTree, Std.TreeMap.getElem?_insert_self, Option.getD_some]

theorem tree_setTree_of_ne {name' : String} (h : name ≠ name') :
    (db.setTree name s).tree name' = db.tree name' := by
  have hcompare : compare name name' ≠ .eq := fun heq => h (Std.compare_eq_iff_eq.mp heq)
  rw [tree, setTree, Std.TreeMap.getElem?_insert, if_neg hcompare, tree]

theorem tree_openTree (name' : String) : (db.openTree name).tree name' = db.tree name' := by
  rw [openTree]
  split
  · rfl
  · next habsent =>
    by_cases h : name = name'
    · subst h
      have hnone : db.trees[name]? = none :=
        Std.TreeMap.getElem?_eq_none (by simpa using habsent)
      rw [tree_setTree_self, tree, hnone, Option.getD_none]
    · exact db.tree_setTree_of_ne name .empty h

end Database

namespace OpenStore

variable {k : KeyCoding}

/-- The sources that some actions record, in order. -/
def recorded (actions : List Action) : List Frequencies :=
  actions.flatMap fun
    | .record m => [m]
    | .flush => []

theorem recorded_cons (action : Action) (actions : List Action) :
    recorded (action :: actions) = recorded [action] ++ recorded actions := by
  simp only [recorded, List.flatMap_cons, List.flatMap_nil, List.append_nil]

theorem label_act (s : OpenStore) (action : Action) : (s.act k action).label = s.label := by
  cases action <;> rfl

theorem counts_act (s : OpenStore) (action : Action) :
    (s.act k action).counts = (recorded [action]).foldl (.record k) s.counts := by
  cases action with
  | record m => exact s.database.tree_setTree_self _ _
  | flush => rfl

theorem tree_act_of_ne (s : OpenStore) (action : Action) {label : String} (h : s.label ≠ label) :
    (s.act k action).database.tree (treeName label) = s.database.tree (treeName label) := by
  cases action with
  | record m => exact s.database.tree_setTree_of_ne _ _ fun heq => h (treeName_inj heq)
  | flush => rfl

theorem label_run (s : OpenStore) (actions : List Action) : (s.run k actions).label = s.label := by
  induction actions generalizing s with
  | nil => rfl
  | cons action actions ih => exact (ih (s.act k action)).trans (s.label_act action)

theorem counts_run (s : OpenStore) (actions : List Action) :
    (s.run k actions).counts = (recorded actions).foldl (.record k) s.counts := by
  induction actions generalizing s with
  | nil => rfl
  | cons action actions ih =>
    rw [recorded_cons, List.foldl_append, ← counts_act]
    exact ih (s.act k action)

theorem tree_run_of_ne (s : OpenStore) (actions : List Action) {label : String}
    (h : s.label ≠ label) :
    (s.run k actions).database.tree (treeName label) = s.database.tree (treeName label) := by
  induction actions generalizing s with
  | nil => rfl
  | cons action actions ih =>
    have hrest : (s.act k action).label ≠ label := by
      rw [label_act]
      exact h
    exact (ih (s.act k action) hrest).trans (s.tree_act_of_ne action h)

theorem counts_ofLabel (db : Database) (label : String) :
    (ofLabel db label).counts = db.tree (treeName label) :=
  db.tree_openTree _ _

/-- Sources that are recorded in a store just opened are recorded in the tree of
its label and in no other. -/
theorem tree_foldl_record (db : Database) (label : String) (ms : List Frequencies) :
    let store := ms.foldl (record k) (ofLabel db label)
    store.counts = ms.foldl (.record k) (db.tree (treeName label)) ∧
      store.database.tree (treeName label) = store.counts ∧
      ∀ other, other ≠ label →
        store.database.tree (treeName other) = db.tree (treeName other) := by
  intro store
  let opened := ofLabel db label
  have hrun : opened.run k (ms.map .record) = store := List.foldl_map
  have hrecorded : recorded (ms.map .record) = ms := by
    simp [recorded, List.flatMap_map]
  refine ⟨?_, ?_, fun other hother => ?_⟩
  · rw [← hrun, counts_run, hrecorded, counts_ofLabel]
  · have hlabel : store.label = label := by
      rw [← hrun, label_run]
      rfl
    rw [counts, hlabel]
  · rw [← hrun, opened.tree_run_of_ne _ hother.symm]
    exact db.tree_openTree _ _

end OpenStore

namespace Session

variable {k : KeyCoding}

/-- The sources that some sessions record under a label, in order. -/
def recordedUnder (label : String) (sessions : List Session) : List Frequencies :=
  sessions.flatMap fun s => if s.label = label then OpenStore.recorded s.actions else []

theorem recordedUnder_cons (label : String) (s : Session) (sessions : List Session) :
    recordedUnder label (s :: sessions) =
      recordedUnder label [s] ++ recordedUnder label sessions := by
  simp only [recordedUnder, List.flatMap_cons, List.flatMap_nil, List.append_nil]

theorem tree_run (db : Database) (s : Session) (label : String) :
    (s.run k db).tree (treeName label) =
      (recordedUnder label [s]).foldl (.record k) (db.tree (treeName label)) := by
  let opened := OpenStore.ofLabel db s.label
  change (opened.run k s.actions).database.tree (treeName label) = _
  rw [recordedUnder, List.flatMap_singleton]
  by_cases h : s.label = label
  · subst h
    have hlabel : (opened.run k s.actions).label = s.label := opened.label_run s.actions
    have hcounts := @OpenStore.counts_run k opened s.actions
    rw [OpenStore.counts, hlabel, OpenStore.counts_ofLabel] at hcounts
    rw [if_pos rfl, hcounts]
  · rw [if_neg h, opened.tree_run_of_ne s.actions h]
    exact db.tree_openTree _ _

theorem tree_foldl_run (db : Database) (sessions : List Session) (label : String) :
    (sessions.foldl (Session.run k) db).tree (treeName label) =
      (recordedUnder label sessions).foldl (.record k) (db.tree (treeName label)) := by
  induction sessions generalizing db with
  | nil => rfl
  | cons s sessions ih =>
    rw [recordedUnder_cons, List.foldl_append, ← tree_run]
    exact ih (s.run k db)

/-- The store of a session that follows others, after all that is done with it
and before it is closed. -/
def store (k : KeyCoding) (earlier : List Session) (s : Session) : OpenStore :=
  (OpenStore.ofLabel (earlier.foldl (Session.run k) .empty) s.label).run k s.actions

theorem counts_store (earlier : List Session) (s : Session) :
    (s.store k earlier).counts =
      (recordedUnder s.label (earlier ++ [s])).foldl (.record k) .empty := by
  have hempty : Database.empty.tree (treeName s.label) = .empty := by
    rw [Database.tree, Database.empty, Std.TreeMap.getElem?_emptyc, Option.getD_none]
  have hearlier := @tree_foldl_run k .empty earlier s.label
  rw [hempty] at hearlier
  have hsplit : recordedUnder s.label (earlier ++ [s]) =
      recordedUnder s.label earlier ++ OpenStore.recorded s.actions := by
    simp [recordedUnder]
  rw [store, OpenStore.counts_run, OpenStore.counts_ofLabel, hearlier, hsplit, List.foldl_append]

/-- After any sessions on a database, a store that is opened again under a label
answers as a store in memory does in which all sources of the label were
recorded, those of earlier sessions and those recorded since it was opened. The
snapshots have the same lines. The features read back from their keys, and the
counts fit their entries. -/
theorem store_answers (k : KeyCoding) (fs : Set Feature) (hk : k.Faithful fs)
    (earlier : List Session) (s : Session) :
    let ms := recordedUnder s.label (earlier ++ [s])
    let memory := ms.foldl Store.record .empty
    (∀ m ∈ ms, ∀ f ∈ m.distinct, f ∈ fs) →
    (∀ f n, memory.count? f = some n → n < 0x10000000000000000) →
      (∀ f ∈ fs, (s.store k earlier).count? k f = memory.count? f) ∧
      (s.store k earlier).size = memory.size ∧
      (s.store k earlier).isEmpty = memory.isEmpty ∧
      ∃ lines, (s.store k earlier).snapshot k = some lines ∧ lines.Perm memory.snapshot := by
  intro ms memory hfs hfits
  let counted := ms.flatMap (·.distinct.toList)
  have hcounted : ∀ f ∈ counted, f ∈ fs := forall_mem_flatMap_distinct hfs
  have hmemory : memory.Holds counted := Store.holds_empty.record ms
  have hdisk : DiskStore.Holds k fs counted (s.store k earlier).counts := by
    rw [counts_store]
    exact DiskStore.Holds.empty.record hk hfs
  have hsmall (f : Feature) : counted.count f < 0x10000000000000000 := by
    have hcount := hmemory f
    by_cases hzero : counted.count f = 0
    · rw [hzero]
      decide
    · rw [if_neg hzero] at hcount
      exact hfits f _ hcount
  obtain ⟨listed, hlists⟩ := hdisk.lists hk hcounted hsmall
  obtain ⟨listed', hlists'⟩ := hmemory.lists
  obtain ⟨hsize, lines, lines', hlines, hlines', hperm⟩ := hlists.alike hlists'
  refine ⟨fun f hf => ?_, hsize, ?_, lines, hlines, ?_⟩
  · exact (hdisk.count?_eq hsmall hf).trans (hmemory f).symm
  · exact congrArg (· == 0) hsize
  · rw [Option.some.inj hlines']
    exact hperm

def evalSource : Frequencies := .ofList [Recording.evalCall]

def twoSessions : List Session := [⟨"a", [.record evalSource, .flush]⟩, ⟨"b", [.record evalSource]⟩]

/-- A store opened under the first label again counts on, and one opened under
the second finds one source. -/
theorem store_answers_twoSessions :
    (store .binary twoSessions ⟨"a", [.record evalSource]⟩).count? .binary Recording.evalCall =
        some 2 ∧
      (store .binary twoSessions ⟨"b", []⟩).count? .binary Recording.evalCall = some 1 := by
  have hevalFits : Recording.evalCall.Fits := by
    constructor
    · decide
    · show "eval".utf8ByteSize < 0x10000000000000000
      decide
  have hdistinct : evalSource.distinct = #[Recording.evalCall] :=
    distinct_ofList_singleton Recording.evalCall
  have hfits : ∀ m ∈ [evalSource, evalSource], ∀ f ∈ m.distinct, f ∈ {f : Feature | f.Fits} := by
    simp [hdistinct, hevalFits]
  have hrecord (s : Store) : s.record evalSource = s.increment Recording.evalCall := by
    rw [Store.record, hdistinct]
    rfl
  have hone (f : Feature) : ([evalSource].foldl Store.record .empty).count? f =
      if Recording.evalCall = f then some 1 else none := by
    rw [List.foldl_cons, hrecord, List.foldl_nil, Store.count?_increment, Store.holds_empty,
      Store.holds_empty]
    rfl
  have htwo (f : Feature) : ([evalSource, evalSource].foldl Store.record .empty).count? f =
      if Recording.evalCall = f then some 2 else none := by
    have hfirst := hone Recording.evalCall
    rw [if_pos rfl] at hfirst
    rw [← List.singleton_append, List.foldl_append, List.foldl_cons, hrecord, List.foldl_nil,
      Store.count?_increment, hfirst, hone]
    split <;> rfl
  have hsmall {c n : Nat} {f : Feature} (hc : c ≤ 2)
      (h : (if Recording.evalCall = f then some c else none) = some n) :
      n < 0x10000000000000000 := by
    split at h
    · cases h
      exact Nat.lt_of_le_of_lt hc (by decide)
    · contradiction
  obtain ⟨hfirst, -⟩ := store_answers .binary _ KeyCoding.binary_faithful twoSessions
    ⟨"a", [.record evalSource]⟩ hfits
    fun f n h => hsmall (Nat.le_refl 2) ((htwo f).symm.trans h)
  obtain ⟨hsecond, -⟩ := store_answers .binary _ KeyCoding.binary_faithful twoSessions ⟨"b", []⟩
    (fun m hm => hfits m (List.mem_cons_of_mem _ hm))
    fun f n h => hsmall (Nat.le_succ 1) ((hone f).symm.trans h)
  exact ⟨(hfirst _ hevalFits).trans (htwo _), (hsecond _ hevalFits).trans (hone _)⟩

end Session

end ScriptFeatures
