import Mathlib.Data.Set.Insert
import ScriptFeatures.FileTree
import ScriptFeatures.Proofs.Path

/-!
What the operations on files do to a tree. Setting and erasing an entry change
what is at its place and nothing else. Where a path leads depends on the
directories alone (`FileTree.locate_of_sameDirectories`), so writing and
removing files leaves it as it is, and the names in a directory lead to
different places (`FileTree.locate_join`).
-/

namespace ScriptFeatures

namespace FileTree

/-! ### Entries -/

theorem lookup_filter_ne (entries : List (Location × FileEntry)) (place q : Location) :
    (entries.filter (·.1 != place)).lookup q = if q = place then none else entries.lookup q := by
  induction entries with
  | nil => simp
  | cons entry entries ih =>
    obtain ⟨k, e⟩ := entry
    rw [List.filter_cons, List.lookup_cons]
    by_cases hq : q = k
    · subst hq
      by_cases hk : q = place
      · have hdropped : ((q, e).1 != place) = false := by simp [hk]
        rw [if_neg (by simp [hdropped]), ih, if_pos hk, if_pos hk]
      · have hkept : ((q, e).1 != place) = true := by simp [hk]
        rw [if_pos hkept, List.lookup_cons_self, if_neg hk, beq_self_eq_true]
    · have hqk : (q == k) = false := beq_eq_false_iff_ne.mpr hq
      rw [hqk, ← ih]
      split
      · rw [List.lookup_cons, hqk]
      · rfl

variable {t u : FileTree} {place : Location}

theorem get?_set (hplace : place ≠ []) (entry : FileEntry) (q : Location) :
    (t.set place entry).get? q = if q = place then some entry else t.get? q := by
  simp only [get?, set, List.isEmpty_iff]
  by_cases hq : q = place
  · subst hq
    simp [hplace]
  · have hqp : (q == place) = false := beq_eq_false_iff_ne.mpr hq
    simp [hq, hqp, List.lookup_cons, lookup_filter_ne]

theorem get?_erase (hplace : place ≠ []) (q : Location) :
    (t.erase place).get? q = if q = place then none else t.get? q := by
  simp only [get?, erase, List.isEmpty_iff]
  by_cases hq : q = place
  · subst hq
    simp [hplace, lookup_filter_ne]
  · simp [hq, lookup_filter_ne]

/-! ### Differences -/

/-- A tree that differs from another one at some places at most, where no
directory is. -/
structure DiffersAt (places : Set Location) (t u : FileTree) : Prop where
  workingDirectory : u.workingDirectory = t.workingDirectory
  others : ∀ q ∉ places, u.get? q = t.get? q
  noDirectory : ∀ q ∈ places, u.isDirectory q = false

namespace DiffersAt

variable {places : Set Location}

theorem refl (h : ∀ q ∈ places, t.isDirectory q = false) : t.DiffersAt places t :=
  ⟨rfl, fun _ _ => rfl, h⟩

theorem trans (h : t.DiffersAt places u) {more : Set Location} (hmore : more ⊆ places)
    {v : FileTree} (h' : u.DiffersAt more v) : t.DiffersAt places v where
  workingDirectory := h'.workingDirectory.trans h.workingDirectory
  others := fun q hq => (h'.others q fun hmem => hq (hmore hmem)).trans (h.others q hq)
  noDirectory := by
    intro q hq
    by_cases hmem : q ∈ more
    · exact h'.noDirectory q hmem
    · rw [isDirectory, h'.others q hmem, ← isDirectory]
      exact h.noDirectory q hq

theorem set (hplace : place ≠ []) (content : ByteArray) :
    t.DiffersAt {place} (t.set place (.file content)) := by
  refine ⟨rfl, fun q hq => ?_, fun q hq => ?_⟩
  · exact (get?_set hplace _ q).trans (if_neg hq)
  · rw [Set.mem_singleton_iff.mp hq, isDirectory, get?_set hplace, if_pos rfl]

theorem erase (hplace : place ≠ []) : t.DiffersAt {place} (t.erase place) := by
  refine ⟨rfl, fun q hq => ?_, fun q hq => ?_⟩
  · exact (get?_erase hplace q).trans (if_neg hq)
  · rw [Set.mem_singleton_iff.mp hq, isDirectory, get?_erase hplace, if_pos rfl]

end DiffersAt

/-! ### Paths -/

/-- Two trees have the same directories. -/
structure SameDirectories (t u : FileTree) : Prop where
  workingDirectory : u.workingDirectory = t.workingDirectory
  isDirectory (q : Location) : u.isDirectory q = t.isDirectory q

theorem get?_eq_directory {q : Location} : t.get? q = some .directory ↔ t.isDirectory q = true := by
  rw [isDirectory]
  cases t.get? q with
  | none => simp
  | some entry => cases entry <;> simp

theorem follow_append (t : FileTree) (place : Location) (parts more : List String) :
    t.follow place (parts ++ more) = (t.follow place parts).bind (t.follow · more) := by
  induction parts generalizing place with
  | nil => rfl
  | cons part parts ih =>
    rw [List.cons_append, follow, follow]
    split
    · rfl
    · rfl
    · split
      · exact ih place
      split
      · exact ih place.dropLast
      split
      · rfl
      · exact ih (place ++ [part])

theorem follow_of_sameDirectories (h : t.SameDirectories u) {parts : List String}
    {q : Location} (hq : t.follow place parts = .ok q) : u.follow place parts = .ok q := by
  induction parts generalizing place with
  | nil => exact hq
  | cons part parts ih =>
    rw [follow] at hq
    split at hq
    · contradiction
    · contradiction
    next hdirectory =>
    have hsame : u.get? place = some .directory := by
      rw [get?_eq_directory, h.isDirectory, ← get?_eq_directory]
      exact hdirectory
    rw [follow, hsame]
    split at hq
    · next hsilent =>
      simp only [hsilent]
      exact ih hq
    next hsilent =>
    split at hq
    · next hup =>
      simp only [hsilent, hup]
      exact ih hq
    next hup =>
    split at hq
    · contradiction
    · next hlong =>
      simp only [hsilent, hup, hlong]
      exact ih hq

theorem locate_of_sameDirectories (h : t.SameDirectories u) {path : String}
    (hpath : t.locate path = .ok place) : u.locate path = .ok place := by
  rw [locate] at hpath ⊢
  split at hpath
  · contradiction
  · next hfault =>
    have hstart : u.startOf path = t.startOf path := by
      rw [startOf, startOf, h.workingDirectory]
    rw [hstart]
    exact follow_of_sameDirectories h hpath

theorem readText_congr {path : String} (ht : t.locate path = .ok place)
    (hu : u.locate path = .ok place) (h : t.get? place = u.get? place) :
    t.readText path = u.readText path := by
  rw [readText, readText, read, read, ht, hu]
  dsimp only
  rw [h]

theorem readText_eq_ok {path text : String} (h : t.locate path = .ok place)
    (hfile : t.get? place = some (.file text.toUTF8)) : t.readText path = .ok text := by
  have hvalid : String.fromUTF8? text.toUTF8 = some text := dif_pos text.isValidUTF8
  simp only [readText, read, h, hfile, hvalid]

theorem write_eq {path : String} (h : t.locate path = .ok place)
    (hdirectory : t.isDirectory place = false) (content : ByteArray) :
    t.write path content = .ok (t.set place (.file content)) := by
  rw [write, h]
  dsimp only
  rw [hdirectory]
  rfl

/-- A file is removed by erasing what is at its place, if anything. -/
theorem remove_cases {path : String} (h : t.locate path = .ok place)
    (hdirectory : t.isDirectory place = false) :
    t.get? place = none ∧ (t.remove path).toOption.getD t = t ∨
      (t.remove path).toOption.getD t = t.erase place := by
  rw [remove, h]
  dsimp only
  cases hentry : t.get? place with
  | none => exact .inl ⟨rfl, rfl⟩
  | some entry =>
    cases entry with
    | directory =>
      rw [get?_eq_directory.mp hentry] at hdirectory
      contradiction
    | file content => exact .inr rfl

/-- Writing changes what is at the place of the path alone. -/
theorem get?_of_write {path : String} {content : ByteArray} (h : t.write path content = .ok u)
    (hplace : t.locate path ≠ .ok place) : u.get? place = t.get? place := by
  rw [write] at h
  split at h
  · contradiction
  next target htarget =>
  split at h
  · contradiction
  next hdirectory =>
  cases h
  have hroot : target ≠ [] := by
    rintro rfl
    exact hdirectory rfl
  refine (get?_set hroot _ place).trans (if_neg ?_)
  rintro rfl
  exact hplace htarget

/-- One tree is another one without the file that a path leads to. -/
def Without (t : FileTree) (path : String) (u : FileTree) : Prop :=
  ∃ place content, t.locate path = .ok place ∧ t.get? place = some (.file content) ∧
    u.workingDirectory = t.workingDirectory ∧
    ∀ q, u.get? q = if q = place then none else t.get? q

theorem without_of_remove {path : String} (h : t.remove path = .ok u) : t.Without path u := by
  rw [remove] at h
  split at h
  · contradiction
  next place hplace =>
  split at h
  · contradiction
  · contradiction
  next content hentry =>
  cases h
  have hroot : place ≠ [] := by
    rintro rfl
    have hdirectory : t.get? [] = some .directory := rfl
    rw [hdirectory] at hentry
    cases hentry
  exact ⟨place, content, hplace, hentry, rfl, get?_erase hroot⟩

/-- What can be read can be removed. -/
theorem exists_remove {path text : String} (h : t.readText path = .ok text) :
    ∃ u, t.remove path = .ok u := by
  rw [readText, read] at h
  rw [remove]
  cases hplace : t.locate path with
  | error e =>
    rw [hplace] at h
    contradiction
  | ok place =>
    simp only [hplace] at h ⊢
    cases hentry : t.get? place with
    | none =>
      rw [hentry] at h
      contradiction
    | some entry =>
      cases entry with
      | directory =>
        rw [hentry] at h
        contradiction
      | file content => exact ⟨t.erase place, rfl⟩

theorem get?_of_remove {path : String} (h : t.remove path = .ok u)
    (hplace : t.locate path ≠ .ok place) : u.get? place = t.get? place := by
  obtain ⟨target, -, htarget, -, -, hentry⟩ := without_of_remove h
  refine (hentry place).trans (if_neg ?_)
  rintro rfl
  exact hplace htarget

/-- The last part of a path is looked up at the place of its directory. -/
theorem follow_of_locate_join {directory name : String} (hname : '/' ∉ name.toList)
    (h : t.locate (Path.join directory name) = .ok place) :
    ∃ parent, t.follow (t.startOf directory) (Path.parentParts directory) = .ok parent ∧
      t.follow parent [name] = .ok place := by
  rw [locate] at h
  split at h
  · contradiction
  have hstart : t.startOf (Path.join directory name) = t.startOf directory := by
    rw [startOf, startOf, Path.startsWith_join hname]
  rw [hstart, Path.parts_join hname, follow_append] at h
  cases hparent : t.follow (t.startOf directory) (Path.parentParts directory) with
  | error e =>
    rw [hparent] at h
    contradiction
  | ok parent =>
    rw [hparent] at h
    exact ⟨parent, rfl, h⟩

/-- A silent part stays in the directory, two dots leave it, and any other part
is a name in it. -/
theorem follow_singleton_cases {parent : Location} {part : String}
    (h : t.follow parent [part] = .ok place) :
    (Path.isSilent part = true ∧ place = parent) ∨ (part = ".." ∧ place = parent.dropLast) ∨
      place = parent ++ [part] := by
  rw [follow] at h
  split at h
  · contradiction
  · contradiction
  split at h
  · next hsilent => exact .inl ⟨hsilent, (Except.ok.inj h).symm⟩
  split at h
  · next hup => exact .inr (.inl ⟨beq_iff_eq.mp hup, (Except.ok.inj h).symm⟩)
  split at h
  · contradiction
  · exact .inr (.inr (Except.ok.inj h).symm)

theorem ne_of_follow_singleton {parent : Location} {part name : String}
    (h : t.follow parent [part] = .ok place) (hne : part ≠ name) : place ≠ parent ++ [name] := by
  intro heq
  have hlength := congrArg List.length heq
  rw [List.length_append, List.length_singleton] at hlength
  rcases follow_singleton_cases h with ⟨-, rfl⟩ | ⟨-, rfl⟩ | rfl
  · omega
  · rw [List.length_dropLast] at hlength
    omega
  · exact hne (List.singleton_inj.mp (List.append_cancel_left heq))

theorem locate_join {directory name : String} (hname : Path.IsName name)
    (h : t.locate (Path.join directory name) = .ok place) :
    ∃ parent, t.follow (t.startOf directory) (Path.parentParts directory) = .ok parent ∧
      place = parent ++ [name] := by
  obtain ⟨parent, hparent, hplace⟩ := follow_of_locate_join hname.noSlash h
  refine ⟨parent, hparent, ?_⟩
  rcases follow_singleton_cases hplace with ⟨hsilent, -⟩ | ⟨hup, -⟩ | hbelow
  · rw [hname.notSilent] at hsilent
    contradiction
  · exact absurd hup hname.notUp
  · exact hbelow

end FileTree

end ScriptFeatures
