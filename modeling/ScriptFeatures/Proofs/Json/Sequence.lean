import ScriptFeatures.Json.Sequence
import ScriptFeatures.Proofs.Json.Kept
import ScriptFeatures.Proofs.Json.Pretty

/-!
Documents that are read one behind the other. A list or an object that is read
is open from its first character to its last one (`Reader.Inside`), so the
reader stops right behind it, whatever follows (`Reader.readFront_of_outcome`).
Lists and objects, as they are printed too, may therefore be written behind each
other (`Reader.readAllFrom_documents`).
-/

namespace ScriptFeatures.Json

namespace Reader

/-- The value under way is in a container. -/
structure Inside (st : State) : Prop where
  opened : st.stack ≠ []
  undone (v : Value) : st.focus ≠ .done v

section

variable {limit : Option Nat} {shape : Shape} {stack : List Frame} {st st' : State} {c : Char}

theorem inside_await (hstack : stack ≠ []) (a : Await) : Inside ⟨stack, .await a⟩ :=
  ⟨hstack, fun _ => by simp⟩

theorem Completed.inside_or_done (h : Completed st) : Inside st ∨ ∃ v, st = ⟨[], .done v⟩ := by
  cases h with
  | done v => exact .inr ⟨v, rfl⟩
  | separator | rowEnd | memberEnd => exact .inl (inside_await (by simp) _)

theorem Begun.inside (h : Begun stack shape st) (hstack : stack ≠ []) : Inside st := by
  cases h with
  | string | number | word => exact ⟨hstack, fun _ => by simp⟩
  | opened frame a => exact inside_await (by simp) a

theorem Followed.inside_or_done {a : Await} (h : Followed stack a c st) (hstack : stack ≠ []) :
    Inside st ∨ ∃ v, st = ⟨[], .done v⟩ := by
  cases h with
  | closed _ hcompleted => exact hcompleted.inside_or_done
  | value _ hbegun | element _ hbegun => exact .inl (hbegun.inside hstack)
  | name first ignored => exact .inl ⟨hstack, fun _ => by simp⟩
  | awaits a' => exact .inl (inside_await hstack a')

/-- A step in a container stays in one or completes the whole value. -/
theorem Inside.step (hin : Inside st) (h : Reader.step limit st c = .ok st') :
    Inside st' ∨ ∃ v, st' = ⟨[], .done v⟩ := by
  cases stepped_of_step h with
  | space => exact .inl hin
  | followed _ hfollowed => exact hfollowed.inside_or_done hin.opened
  | name | scalar => exact .inl ⟨hin.opened, fun _ => by simp⟩
  | named _ hnamed =>
    obtain ⟨hstack, shape, hfocus⟩ := named_eq_ok hnamed hin.opened
    exact .inl ⟨hstack, fun v => by simp [hfocus]⟩
  | accepted _ haccept => exact (completed_of_accept haccept).inside_or_done
  | acceptedBefore _ haccept hnext =>
    have hbetween := (completed_of_accept haccept).inside_or_done
    rcases hnext with ⟨-, rfl⟩ | ⟨a, hfocus, hfollowed⟩
    · exact hbetween
    · rcases hbetween with hbetween | ⟨v, rfl⟩
      · exact hfollowed.inside_or_done hbetween.opened
      · contradiction

theorem Inside.finish_ne_ok (hin : Inside st) (v : Value) : finish st ≠ .ok v := by
  intro h
  rcases finish_cases h with hdone | ⟨shape, n, w, st', -, haccept, hdone⟩
  · exact hin.undone v hdone
  · exact hin.opened (accept_done haccept hdone).1

theorem inside_of_enter {frame : Frame} {a : Await} (h : enter limit stack frame a = .ok st) :
    Inside st := by
  rw [enter] at h
  split at h
  · contradiction
  · rw [← Except.ok.inj h]
    exact inside_await (by simp) a

theorem inside_of_openList (h : openList limit stack shape = .ok st) : Inside st := by
  cases shape with
  | any | list _ | tuple _ | record _ _ _ => exact inside_of_enter h
  | ignored =>
    rw [← Except.ok.inj h]
    exact inside_await (by simp) _
  | string | natural _ => contradiction

theorem inside_of_openObject (h : openObject limit stack shape = .ok st) : Inside st := by
  cases shape with
  | any | record _ _ _ => exact inside_of_enter h
  | ignored =>
    rw [← Except.ok.inj h]
    exact inside_await (by simp) _
  | string | natural _ | list _ | tuple _ => contradiction

/-! ### One document -/

theorem outcome_of_done {v w : Value} {cs : List Char}
    (h : outcome limit ⟨[], .done v⟩ cs = .ok w) : w = v ∧ ∀ c ∈ cs, c ∈ spaces := by
  rw [outcome, run_of_done rfl] at h
  cases hcs : cs.all isSpace with
  | true =>
    rw [hcs] at h
    exact ⟨(Except.ok.inj h).symm, all_isSpace.mp hcs⟩
  | false =>
    rw [hcs] at h
    contradiction

theorem readFront_cons (hgoes : endsBefore st c = false) (hstep : step limit st c = .ok st')
    (hin : Inside st') (cs : List Char) :
    readFront limit st (c :: cs) = readFront limit st' cs := by
  rw [readFront, hgoes, hstep]
  cases hfocus : st'.focus with
  | done v => exact absurd hfocus (hin.undone v)
  | await a | scalar shape s | name ignored s => simp [hfocus]

/-- What is read in a container is read to the character that completes the
value. Only spaces stand behind it, and anything may stand there. -/
theorem readFront_of_outcome (hin : Inside st) {text : List Char} {v : Value}
    (h : outcome limit st text = .ok v) :
    ∃ front blank, text = front ++ blank ∧ (∀ c ∈ blank, c ∈ spaces) ∧
      ∀ more, readFront limit st (front ++ more) = .ok (v, more) := by
  induction text generalizing st with
  | nil => exact absurd h (hin.finish_ne_ok v)
  | cons c text ih =>
    obtain ⟨st', hstep, hrest⟩ := step_of_outcome h
    have hgoes : endsBefore st c = false := by
      rw [endsBefore]
      split
      · next hstack _ => exact absurd hstack hin.opened
      · rfl
    rcases hin.step hstep with hin' | ⟨w, rfl⟩
    · obtain ⟨front, blank, rfl, hblank, hread⟩ := ih hin' hrest
      refine ⟨c :: front, blank, rfl, hblank, fun more => ?_⟩
      rw [List.cons_append, readFront_cons hgoes hstep hin', hread]
    · obtain ⟨rfl, hblank⟩ := outcome_of_done hrest
      refine ⟨[c], text, rfl, hblank, fun more => ?_⟩
      rw [List.singleton_append, readFront, hgoes, hstep]
      rfl

/-- A text that is read as a value, and begins with the bracket of a list or an
object. -/
structure IsDocument (limit : Option Nat) (shape : Shape) (text : List Char) (v : Value) :
    Prop where
  begins : text.head? = some '[' ∨ text.head? = some '\x7b'
  read : outcome limit (.start shape) text = .ok v

/-- The next document is read with what stands behind it left as it is, but for
spaces. -/
theorem IsDocument.next?_append {text : List Char} {v : Value}
    (h : IsDocument limit shape text v) :
    ∃ blank, (∀ c ∈ blank, c ∈ spaces) ∧ ∀ more,
      next? limit shape (text ++ more) = .ok (some (v, blank ++ more)) := by
  obtain ⟨hbegins, hread⟩ := h
  cases text with
  | nil => simp at hbegins
  | cons c text =>
    obtain ⟨st, hstep, hrest⟩ := step_of_outcome hread
    have hopened : isSpace c = false ∧ endsItself c = true ∧ Inside st := by
      rcases hbegins with hc | hc
      · cases hc
        exact ⟨rfl, rfl, inside_of_openList hstep⟩
      · cases hc
        exact ⟨rfl, rfl, inside_of_openObject hstep⟩
    obtain ⟨hspace, hends, hin⟩ := hopened
    obtain ⟨front, blank, rfl, hblank, hfront⟩ := readFront_of_outcome hin hrest
    refine ⟨blank, hblank, fun more => ?_⟩
    have hfirst : readFront limit (.start shape) (c :: (front ++ (blank ++ more))) =
        .ok (v, blank ++ more) := by
      rw [readFront_cons rfl hstep hin, hfront]
    rw [next?, List.cons_append, List.append_assoc, List.dropWhile_cons_of_neg (by simp [hspace])]
    simp only [hfirst, hends, Bool.true_or, if_true]

/-- A list or an object that is kept is a document as it is printed, with any
spaces behind it. -/
theorem isDocument_pretty {room : Option Nat} {v : Value} (hv : Shape.Keeps room shape v)
    (hroom : Room limit [] room) (hbegins : ¬ v.IsScalar) (level : Nat) {blank : List Char}
    (hblank : ∀ c ∈ blank, c ∈ spaces) : IsDocument limit shape (v.pretty level ++ blank) v := by
  constructor
  · cases hv with
    | scalar hv _ => exact absurd hv hbegins
    | @list _ _ _ items => cases items <;> simp [Value.pretty]
    | @object _ members | @record _ _ _ _ members =>
      cases members <;> simp [Value.pretty]
  · have hbehind : outcome limit ⟨[], .done v⟩ blank = .ok v := by
      have hend := @Between.outcome_blank limit _ (.done [] v) _ hblank []
      rw [List.append_nil] at hend
      exact hend
    exact passes_of_keeps hv [] _ .value hroom _ (v.spaced_pretty level) blank v hbehind

/-! ### Documents in a row -/

theorem next?_blank {blank : List Char} (hblank : ∀ c ∈ blank, c ∈ spaces) (more : List Char) :
    next? limit shape (blank ++ more) = next? limit shape more := by
  have hdrop : (blank ++ more).dropWhile isSpace = more.dropWhile isSpace := by
    rw [List.dropWhile_append_of_pos fun c hc => isSpace_eq_true.mpr (hblank c hc)]
  rw [next?, next?, hdrop]

theorem readAllFrom_eq (text : List Char) :
    readAllFrom limit shape text =
      match next? limit shape text with
      | .error e => .error e
      | .ok none => .ok []
      | .ok (some (v, rest)) => (v :: ·) <$> readAllFrom limit shape rest := by
  rw [readAllFrom]
  split <;> simp_all

/-- Documents are read one behind the other. -/
theorem readAllFrom_documents {documents : List (List Char × Value)}
    (h : ∀ d ∈ documents, IsDocument limit shape d.1 d.2) :
    readAllFrom limit shape (documents.flatMap Prod.fst) = .ok (documents.map Prod.snd) := by
  induction documents with
  | nil => rw [readAllFrom_eq]; rfl
  | cons d documents ih =>
    obtain ⟨hd, hdocuments⟩ := List.forall_mem_cons.mp h
    obtain ⟨blank, hblank, hnext⟩ := hd.next?_append
    have hrest : readAllFrom limit shape (blank ++ documents.flatMap Prod.fst) =
        .ok (documents.map Prod.snd) := by
      rw [readAllFrom_eq, next?_blank hblank, ← readAllFrom_eq, ih hdocuments]
    rw [List.flatMap_cons, readAllFrom_eq, hnext]
    simp only [hrest]
    rfl

end

end Reader

end ScriptFeatures.Json
