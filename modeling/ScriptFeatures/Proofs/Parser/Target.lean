import ScriptFeatures.Parser.Run
import ScriptFeatures.Proofs.FileTree
import ScriptFeatures.Proofs.Path.Extension

/-!
Where the document of a single source goes by default. It gets a name of its own
beside the source (`TargetName`), so neither writing nor removing it touches the
source, and two sources share it only if one of them is the other one with `.js`
behind it (`defaultJsonPath_exact`). The source `..js` is an exception: its
target is the directory above.
-/

namespace ScriptFeatures

open ScriptFeatures.Path

/-- The names that sources have, with the last parts of their targets. -/
inductive TargetName : String → String → Prop
  | script {stem : String} (hne : stem ≠ "") (hdot : stem ≠ ".") :
      TargetName (stem ++ ".js") (stem ++ ".json")
  | up : TargetName "..js" ".."
  | other {name : String} (h : (splitExtension name).2 ≠ some "js") :
      TargetName name (name ++ ".json")

theorem splitExtension_script {stem : String} (hne : stem ≠ "") :
    splitExtension (stem ++ ".js") = (stem, some "js") := by
  have hsplit := @splitExtension_append stem "js" hne (by simp)
  rwa [String.append_assoc] at hsplit

namespace TargetName

variable {name name' target target' : String}

theorem noSlash (h : TargetName name target) (hname : '/' ∉ name.toList) :
    '/' ∉ target.toList := by
  cases h with
  | script _ _ => simpa using hname
  | up => simp
  | other _ => simpa using hname

theorem ne_name (h : TargetName name target) : target ≠ name := by
  cases h with
  | script _ _ =>
    intro heq
    have hendings : ".json" = ".js" := (String.append_right_inj _).mp heq
    contradiction
  | up => decide
  | other _ =>
    intro heq
    have hlength := congrArg String.length heq
    simp at hlength

/-- The target is named after its source but for one source. -/
theorem isName_iff (h : TargetName name target) (hname : IsName name) :
    (IsName target ∧ ∃ stem, target = stem ++ ".json") ↔ name ≠ "..js" := by
  cases h with
  | @script stem hstem hdot =>
    have hne : stem ++ ".js" ≠ "." ++ ".js" := fun heq =>
      hdot ((String.append_left_inj ".js").mp heq)
    have hslash : '/' ∉ (stem ++ ".json").toList := (script hstem hdot).noSlash hname.noSlash
    have hlong : 3 ≤ (stem ++ ".json").length := by
      rw [String.length_append]
      exact Nat.le_add_left_of_le (by decide)
    exact iff_of_true ⟨isName_of_length hslash hlong, stem, rfl⟩ hne
  | up => exact iff_of_false (fun hup => hup.1.notUp rfl) (fun hne => hne rfl)
  | other hjs =>
    have hne : name ≠ "." ++ ".js" := by
      rintro rfl
      exact hjs (congrArg Prod.snd (splitExtension_script (by decide)))
    exact iff_of_true ⟨hname.append (by simp) (by decide), name, rfl⟩ hne

theorem name_cases (h : TargetName name target) (h' : TargetName name' target')
    (heq : target = target') :
    name = name' ∨ ((splitExtension name).2 ≠ some "js" ∧ name' = name ++ ".js") ∨
      ((splitExtension name').2 ≠ some "js" ∧ name = name' ++ ".js") := by
  have hup (stem : String) : stem ++ ".json" ≠ ".." := append_ne_of_length_lt (by decide)
  have hstem {stem stem' : String} (h : stem ++ ".json" = stem' ++ ".json") : stem = stem' :=
    (String.append_left_inj ".json").mp h
  cases h with
  | script _ _ =>
    cases h' with
    | script _ _ => exact .inl (congrArg (· ++ ".js") (hstem heq))
    | up => exact absurd heq (hup _)
    | other hjs => exact .inr (.inr ⟨hjs, congrArg (· ++ ".js") (hstem heq)⟩)
  | up =>
    cases h' with
    | script _ _ => exact absurd heq.symm (hup _)
    | up => exact .inl rfl
    | other _ => exact absurd heq.symm (hup _)
  | other hjs =>
    cases h' with
    | script _ _ => exact .inr (.inl ⟨hjs, congrArg (· ++ ".js") (hstem heq).symm⟩)
    | up => exact absurd heq (hup _)
    | other _ => exact .inl (hstem heq)

theorem locate_ne (h : TargetName name target) {t : FileTree} {front : String} {place : Location}
    (hfront : IsFront front) (hname : IsName name) (hplace : t.locate (front ++ name) = .ok place) :
    t.locate (front ++ target) ≠ .ok place := by
  intro hsame
  have hslash := h.noSlash hname.noSlash
  rw [← hfront.join_eq hname.noSlash] at hplace
  rw [← hfront.join_eq hslash] at hsame
  obtain ⟨parent, hparent, hlast⟩ := FileTree.locate_join hname hplace
  obtain ⟨parent', hparent', hfollow⟩ := FileTree.follow_of_locate_join hslash hsame
  rw [hparent, Except.ok.injEq] at hparent'
  subst hparent'
  exact FileTree.ne_of_follow_singleton hfollow h.ne_name hlast

end TargetName

theorem Path.Splits.exists_target {p front name : String} (h : Splits p front name) :
    ∃ target, TargetName name target ∧ defaultJsonPath p = front ++ target := by
  by_cases hjs : (splitExtension name).2 = some "js"
  · obtain ⟨stem, hne, hname, -⟩ := exists_of_splitExtension hjs
    rw [String.append_assoc] at hname
    have hscript : name = stem ++ ".js" := hname
    subst hscript
    rw [defaultJsonPath, if_pos (h.extension?_eq.trans hjs)]
    -- without its extension only a single dot leaves a part that is no name
    by_cases hdot : stem = "."
    · subst hdot
      exact ⟨"..", .up, h.withExtension_up⟩
    · exact ⟨stem ++ ".json", .script hne hdot, h.withExtension_json hne hdot⟩
  · rw [defaultJsonPath, if_neg (h.extension?_eq ▸ hjs), h.eq, String.append_assoc]
    exact ⟨_, .other hjs, rfl⟩

theorem Path.Splits.defaultJsonPath_append {p front name : String} (h : Splits p front name)
    (hjs : extension? p ≠ some "js") : defaultJsonPath (p ++ ".js") = defaultJsonPath p := by
  have hscript : Splits (p ++ ".js") front (name ++ ".js") :=
    ⟨h.isFront, h.isName.append (by simp) (by decide), by rw [h.eq, String.append_assoc]⟩
  have hextension : extension? (p ++ ".js") = some "js" := by
    rw [hscript.extension?_eq, splitExtension_script h.isName.ne_empty]
  rw [defaultJsonPath, if_pos hextension, defaultJsonPath, if_neg hjs,
    hscript.withExtension_json h.isName.ne_empty h.isName.ne_dot, h.eq, String.append_assoc]

/-- Two sources share a target only if one is the other with `.js` behind it. -/
theorem Path.Splits.defaultJsonPath_eq_iff {p q front front' name name' : String}
    (h : Splits p front name) (h' : Splits q front' name') :
    defaultJsonPath p = defaultJsonPath q ↔
      p = q ∨ (extension? p ≠ some "js" ∧ q = p ++ ".js") ∨
        (extension? q ≠ some "js" ∧ p = q ++ ".js") := by
  constructor
  · intro heq
    obtain ⟨target, htarget, hp⟩ := h.exists_target
    obtain ⟨target', htarget', hq⟩ := h'.exists_target
    rw [hp, hq] at heq
    obtain ⟨rfl, hsame⟩ := append_inj h.isFront h'.isFront (htarget.noSlash h.isName.noSlash)
      (htarget'.noSlash h'.isName.noSlash) heq
    rw [h.extension?_eq, h'.extension?_eq, h.eq, h'.eq]
    refine (htarget.name_cases htarget' hsame).imp (congrArg (front ++ ·)) (.imp ?_ ?_)
    · rintro ⟨hjs, rfl⟩
      exact ⟨hjs, (String.append_assoc).symm⟩
    · rintro ⟨hjs, rfl⟩
      exact ⟨hjs, (String.append_assoc).symm⟩
  · rintro (rfl | ⟨hjs, rfl⟩ | ⟨hjs, rfl⟩)
    · rfl
    · exact (h.defaultJsonPath_append hjs).symm
    · exact h'.defaultJsonPath_append hjs

theorem Parser.get?_of_load {p : Parser} {c : ParserConfig} {input path : String}
    {t u : FileTree} {place : Location} (hrun : (p.run c input (some path) t).2 = u)
    (hplace : u.locate path ≠ .ok place) (retain : Bool) :
    (p.load c input path retain t).2.get? place = u.get? place := by
  rw [load, loadWith]
  obtain ⟨output, files, hran⟩ : ∃ output files, p.run c input (some path) t = (output, files) :=
    ⟨_, _, rfl⟩
  rw [hran] at hrun ⊢
  cases hrun
  cases output with
  | error e => rfl
  | ok output =>
    dsimp only
    split
    · rfl
    dsimp only
    split
    · rfl
    · cases hremove : files.remove path with
      | error e => rfl
      | ok v => exact FileTree.get?_of_remove hremove hplace

/-- The target of a single source lies beside the source and is named after it,
unless the source is called `..js`. It is never the source itself: what is
written to the target does not get into the source, and a load leaves the source
as the parser left it. Two sources have one target only if one is the other with
`.js` behind it and has no such ending itself. -/
theorem defaultJsonPath_exact {p front name : String} (h : Splits p front name) :
    ((∃ target, Splits (defaultJsonPath p) front target ∧ ∃ stem, target = stem ++ ".json") ↔
        name ≠ "..js") ∧
      defaultJsonPath p ≠ p ∧
      (∀ t place, FileTree.locate t p = .ok place →
        (∀ content u, t.write (defaultJsonPath p) content = .ok u → u.get? place = t.get? place) ∧
        ∀ (parser : Parser) (c : ParserConfig) (retain : Bool) (s : FileTree),
          (parser.run c p (some (defaultJsonPath p)) s).2 = t →
            (parser.load c p (defaultJsonPath p) retain s).2.get? place = t.get? place) ∧
      ∀ q front' name', Splits q front' name' →
        (defaultJsonPath p = defaultJsonPath q ↔
          p = q ∨ (extension? p ≠ some "js" ∧ q = p ++ ".js") ∨
            (extension? q ≠ some "js" ∧ p = q ++ ".js")) := by
  obtain ⟨target, htarget, hpath⟩ := h.exists_target
  have hslash := htarget.noSlash h.isName.noSlash
  refine ⟨?beside, ?ne, ?apart, fun q front' name' h' => h.defaultJsonPath_eq_iff h'⟩
  case beside =>
    rw [← htarget.isName_iff h.isName]
    constructor
    · rintro ⟨target', htarget', hjson⟩
      obtain ⟨-, rfl⟩ := append_inj h.isFront htarget'.isFront hslash htarget'.isName.noSlash
        (hpath.symm.trans htarget'.eq)
      exact ⟨htarget'.isName, hjson⟩
    · rintro ⟨hname, hjson⟩
      exact ⟨target, ⟨h.isFront, hname, hpath⟩, hjson⟩
  case ne =>
    rw [hpath, h.eq]
    exact fun heq => htarget.ne_name ((String.append_right_inj front).mp heq)
  case apart =>
    intro t place hplace
    rw [h.eq] at hplace
    have hother := htarget.locate_ne h.isFront h.isName hplace
    rw [← hpath] at hother
    exact ⟨fun content u hwrite => FileTree.get?_of_write hwrite hother,
      fun parser c retain s hrun => Parser.get?_of_load hrun hother retain⟩

theorem splits_script : Splits "a/x.js" "a/" "x.js" :=
  ⟨isFront_slash "a", ⟨by decide, by decide, by decide⟩, rfl⟩

/-- A script has its target beside it and shares it with the name that has no
ending; in another directory there is another target. -/
theorem defaultJsonPath_exact_script :
    (∃ target, Splits (defaultJsonPath "a/x.js") "a/" target ∧ ∃ stem, target = stem ++ ".json") ∧
      defaultJsonPath "a/x.js" = defaultJsonPath "a/x" ∧
      defaultJsonPath "a/x.js" ≠ defaultJsonPath "b/x.js" := by
  have hbare : Splits "a/x" "a/" "x" :=
    ⟨isFront_slash "a", ⟨by decide, by decide, by decide⟩, rfl⟩
  have hother : Splits "b/x.js" "b/" "x.js" :=
    ⟨isFront_slash "b", ⟨by decide, by decide, by decide⟩, rfl⟩
  obtain ⟨hbeside, -, -, hsame⟩ := defaultJsonPath_exact splits_script
  refine ⟨hbeside.mpr (by decide), (hsame _ _ _ hbare).mpr (.inr (.inr ⟨?_, by decide⟩)), ?_⟩
  · rw [hbare.extension?_eq]
    decide
  · rw [Ne, hsame _ _ _ hother]
    decide

/-- Not every source has its target beside it: that of `..js` is the directory
above. -/
theorem not_forall_splits_defaultJsonPath :
    ¬ ∀ p front name, Splits p front name →
      ∃ target, Splits (defaultJsonPath p) front target ∧ ∃ stem, target = stem ++ ".json" := by
  intro hall
  have hsource : Splits "..js" "" "..js" := ⟨.inl rfl, ⟨by decide, by decide, by decide⟩, rfl⟩
  have hup : defaultJsonPath "..js" = "" ++ ".." := by
    rw [defaultJsonPath, if_pos (by rw [hsource.extension?_eq]; decide), hsource.withExtension_up]
  obtain ⟨target, htarget, -⟩ := hall _ _ _ hsource
  have hname : target = ".." := (htarget.eq.symm.trans hup)
  exact htarget.isName.notUp hname

end ScriptFeatures
