import ScriptFeatures.Proofs.Json.Ending

/-!
Texts without their line breaks. A text that is read stays the same when its
line breaks are left out. Between two tokens they are spaces; in a string, a
name or a word the reader refuses them, at once or when the escape they stand
in is complete (`StringScan.Spoiled`); and a number that one of them ends is
ended by the next character as well, since only a space or the punctuation
after a value may follow it (`Reader.Closes`).
-/

namespace ScriptFeatures.Json

open Reader

/-! ### Numbers -/

def Reader.Closes (c : Char) : Prop := isSpace c = true ∨ c = ',' ∨ c = ']' ∨ c = '\x7d'

theorem NumberScan.step_of_closes (skim : Bool) (n : NumberScan) {c : Char} (hc : Closes c) :
    n.step skim c = if n.isOpen then .error .badNumber else .ok none := by
  have hchar : c.isDigit = false ∧ (c == '0') = false ∧ (c == '+') = false ∧ (c == '-') = false ∧
      (c == '.') = false ∧ isExponentMark c = false := by
    simp only [Closes, isSpace, Bool.or_eq_true, beq_iff_eq] at hc
    rcases hc with ((((rfl | rfl) | rfl) | rfl) | rfl | rfl | rfl) <;> decide
  obtain ⟨hdigit, hzero, hplus, hminus, hpoint, hmark⟩ := hchar
  rw [step, isOpen]
  cases n.stage <;>
    simp [hdigit, hzero, hplus, hminus, hpoint, hmark, afterWhole, afterFraction]

/-! ### Strings -/

/-- A line break stands among the digits of an escape. -/
def StringScan.Spoiled (s : StringScan) : Prop :=
  ∃ high read, s.stage = .hex high read ∧ '\n' ∈ read

theorem codeUnit?_of_lineBreak {digits : List Char} (h : '\n' ∈ digits) :
    codeUnit? digits = none := by
  have hnone : digits.mapM hexValue? = none := by
    induction digits with
    | nil => exact absurd h List.not_mem_nil
    | cons c digits ih =>
      rw [List.mapM_cons]
      rcases List.mem_cons.mp h with rfl | h
      · rfl
      · rw [ih h]
        cases hexValue? c <;> rfl
  rw [codeUnit?, hnone]

namespace StringScan

theorem spoiled_of_hexDigit {skim : Bool} {s s' : StringScan} {high : Option Nat}
    {read : List Char} {c : Char} (hmem : '\n' ∈ c :: read)
    (h : s.hexDigit skim high read c = .ok s') : s'.Spoiled := by
  simp only [hexDigit] at h
  split at h
  · rw [← Except.ok.inj h]
    exact ⟨high, c :: read, rfl, hmem⟩
  · rw [codeUnit?_of_lineBreak (List.mem_reverse.mpr hmem)] at h
    contradiction

theorem spoiled_of_map {skim : Bool} {s : StringScan} {r : Option StringScan} {high : Option Nat}
    {read : List Char} {c : Char} (hmem : '\n' ∈ c :: read)
    (h : some <$> s.hexDigit skim high read c = .ok r) : ∃ s', r = some s' ∧ s'.Spoiled := by
  cases hhex : s.hexDigit skim high read c with
  | error e =>
    rw [hhex] at h
    contradiction
  | ok s' =>
    rw [hhex] at h
    exact ⟨s', (Except.ok.inj h).symm, spoiled_of_hexDigit hmem hhex⟩

/-- A line break in a string is an error or spoils an escape. -/
theorem step_lineBreak {skim : Bool} {s : StringScan} {r : Option StringScan}
    (h : s.step skim '\n' = .ok r) : ∃ s', r = some s' ∧ s'.Spoiled := by
  rw [step] at h
  cases hstage : s.stage with
  | hex high read =>
    rw [hstage] at h
    exact spoiled_of_map List.mem_cons_self h
  | plain | backslash | secondBackslash high | secondMark high =>
    rw [hstage] at h
    contradiction

theorem Spoiled.step {skim : Bool} {s : StringScan} (hs : s.Spoiled) {c : Char}
    {r : Option StringScan} (h : s.step skim c = .ok r) : ∃ s', r = some s' ∧ s'.Spoiled := by
  obtain ⟨high, read, hstage, hmem⟩ := hs
  rw [StringScan.step, hstage] at h
  exact spoiled_of_map (List.mem_cons_of_mem c hmem) h

end StringScan

namespace Reader

/-! ### Runs -/

/-- What is read from a state on. -/
def outcome (limit : Option Nat) (st : State) (cs : List Char) : Except Error Value :=
  (run limit st cs).bind finish

theorem read_eq_outcome (limit : Option Nat) (shape : Shape) (text : String) :
    read limit shape text = outcome limit (.start shape) text.toList := by
  rw [read, outcome]
  cases run limit (.start shape) text.toList <;> rfl

theorem outcome_cons (limit : Option Nat) (st : State) (c : Char) (cs : List Char) :
    outcome limit st (c :: cs) = (step limit st c).bind fun st' => outcome limit st' cs := by
  rw [outcome, run]
  cases step limit st c <;> rfl

theorem step_of_outcome {limit : Option Nat} {st : State} {c : Char} {cs : List Char} {v : Value}
    (h : outcome limit st (c :: cs) = .ok v) :
    ∃ st', step limit st c = .ok st' ∧ outcome limit st' cs = .ok v := by
  rw [outcome_cons] at h
  cases hstep : step limit st c with
  | error e =>
    rw [hstep] at h
    contradiction
  | ok st' =>
    rw [hstep] at h
    exact ⟨st', rfl, h⟩

/-! ### Spoiled escapes -/

def Spoiled (st : State) : Prop :=
  ∃ s : StringScan, s.Spoiled ∧
    ((∃ ignored, st.focus = .name ignored s) ∨ ∃ shape, st.focus = .scalar shape (.string s))

section

variable {limit : Option Nat} {shape : Shape} {st st' : State}

theorem spoiled_of_step {s : StringScan} {c : Char}
    (hfocus : (∃ ignored, st.focus = .name ignored s) ∨
      ∃ shape, st.focus = .scalar shape (.string s))
    (hs : ∀ skim r, s.step skim c = .ok r → ∃ s', r = some s' ∧ s'.Spoiled)
    (h : step limit st c = .ok st') : Spoiled st' := by
  rcases hfocus with ⟨ignored, hfocus⟩ | ⟨shape, hfocus⟩
  · simp only [step, hfocus] at h
    cases hr : s.step ignored c with
    | error e =>
      rw [hr] at h
      contradiction
    | ok r =>
      obtain ⟨s', rfl, hspoiled⟩ := hs ignored r hr
      rw [hr] at h
      rw [← Except.ok.inj h]
      exact ⟨s', hspoiled, .inl ⟨ignored, rfl⟩⟩
  · simp only [step, hfocus] at h
    cases hr : s.step shape.isIgnored c with
    | error e =>
      rw [hr] at h
      contradiction
    | ok r =>
      obtain ⟨s', rfl, hspoiled⟩ := hs shape.isIgnored r hr
      rw [hr] at h
      rw [← Except.ok.inj h]
      exact ⟨s', hspoiled, .inr ⟨shape, rfl⟩⟩

theorem Spoiled.step {c : Char} (hst : Spoiled st) (h : step limit st c = .ok st') :
    Spoiled st' := by
  obtain ⟨s, hs, hfocus⟩ := hst
  exact spoiled_of_step hfocus (fun skim r hr => hs.step hr) h

theorem Spoiled.outcome_ne_ok (hst : Spoiled st) (cs : List Char) (v : Value) :
    outcome limit st cs ≠ .ok v := by
  intro h
  induction cs generalizing st with
  | nil =>
    change finish st = .ok v at h
    rw [finish] at h
    obtain ⟨s, -, ⟨ignored, hfocus⟩ | ⟨shape, hfocus⟩⟩ := hst
    · rw [hfocus] at h
      contradiction
    · rw [hfocus] at h
      contradiction
  | cons c cs ih =>
    obtain ⟨st', hstep, hrest⟩ := step_of_outcome h
    exact ih (hst.step hstep) hrest

/-! ### Numbers that are complete -/

theorem Completed.closes {c : Char} (hst : Completed st) (h : step limit st c = .ok st') :
    Closes c := by
  cases hst with
  | done v =>
    have hsettled : settled limit ⟨[], .done v⟩ c = .ok st' := h
    rcases settled_cases hsettled with ⟨hc, -⟩ | ⟨a, hfocus, -⟩
    · exact .inl hc
    · contradiction
  | separator | rowEnd | memberEnd =>
    simp only [step, settled, Await.step, beq_iff_eq] at h
    by_cases hspace : isSpace c = true
    · exact .inl hspace
    · rw [if_neg hspace] at h
      split at h
      · next hc => simp [Closes, hc]
      · split at h
        · next hc => simp [Closes, hc]
        · contradiction

theorem Completed.step_eq (hst : Completed st) (c : Char) :
    step limit st c = settled limit st c := by
  cases hst <;> rfl

/-- A complete number may be taken at once or with the character after it. -/
theorem outcome_of_number {shape' : Shape} {n : NumberScan} {number : Number}
    (hfocus : st.focus = .scalar shape' (.number n)) (hclosed : n.isOpen = false)
    (hfinish : n.finish shape'.isIgnored = .ok number)
    (haccept : accept st.stack shape' (.number number) = .ok st') {cs : List Char} {v : Value}
    (h : outcome limit st' cs = .ok v) : outcome limit st cs = .ok v := by
  have hcompleted := completed_of_accept haccept
  cases cs with
  | nil =>
    change finish st = .ok v
    have hend : finish st' = st'.focus.atEnd := by
      cases hcompleted <;> rfl
    change finish st' = .ok v at h
    rw [hend] at h
    simp only [finish, hfocus, hfinish, haccept, bind, Except.bind]
    exact h
  | cons c cs =>
    obtain ⟨st'', hstep, hrest⟩ := step_of_outcome h
    -- what is read after the value does not continue the number
    have hc := hcompleted.closes hstep
    have hnumber := NumberScan.step_of_closes shape'.isIgnored n hc
    rw [hclosed] at hnumber
    rw [hcompleted.step_eq] at hstep
    have hsame : step limit st c = .ok st'' := by
      simp only [step, hfocus, hnumber, hfinish, haccept]
      exact hstep
    rw [outcome_cons, hsame]
    exact hrest

/-! ### Line breaks -/

theorem step_lineBreak (hasks : Asks shape st) (h : step limit st '\n' = .ok st') :
    st' = st ∨ Spoiled st' ∨ ∃ shape' n number, st.focus = .scalar shape' (.number n) ∧
      n.isOpen = false ∧ n.finish shape'.isIgnored = .ok number ∧
      accept st.stack shape' (.number number) = .ok st' := by
  have hsettled (between : State) : settled limit between '\n' = .ok between := rfl
  cases hfocus : st.focus with
  | await a | done v =>
    simp only [step, hfocus] at h
    exact .inl (Except.ok.inj h).symm
  | name ignored s =>
    exact .inr (.inl (spoiled_of_step (.inl ⟨ignored, hfocus⟩)
      (fun skim r hr => StringScan.step_lineBreak hr) h))
  | scalar shape' s =>
    cases s with
    | string s =>
      exact .inr (.inl (spoiled_of_step (.inr ⟨shape', hfocus⟩)
        (fun skim r hr => StringScan.step_lineBreak hr) h))
    | word letters v =>
      -- no letter of a word is a line break
      have hletters : '\n' ∉ letters := hasks.letters hfocus
      have hdiffers {d : Char} {rest : List Char} (hmem : '\n' ∉ d :: rest) :
          ('\n' == d) = false :=
        beq_eq_false_iff_ne.mpr fun heq => hmem (heq ▸ List.mem_cons_self)
      simp only [step, hfocus] at h
      split at h
      · contradiction
      · rw [hdiffers hletters] at h
        contradiction
      · rw [hdiffers hletters] at h
        contradiction
    | number n =>
      have hnumber := NumberScan.step_of_closes shape'.isIgnored n (c := '\n') (.inl rfl)
      simp only [step, hfocus, hnumber] at h
      cases hopen : n.isOpen with
      | true =>
        rw [hopen] at h
        contradiction
      | false =>
        rw [hopen] at h
        cases hfinish : n.finish shape'.isIgnored with
        | error e =>
          simp only [hfinish] at h
          contradiction
        | ok number =>
          cases haccept : accept st.stack shape' (.number number) with
          | error e =>
            simp only [hfinish, haccept] at h
            contradiction
          | ok between =>
            simp only [hfinish, haccept, hsettled] at h
            have hst : between = st' := Except.ok.inj h
            subst hst
            exact .inr (.inr ⟨shape', n, number, rfl, hopen, hfinish, haccept⟩)

/-- What is read stays the same when the line breaks are left out. -/
theorem Asks.outcome_filter (hasks : Asks shape st) {cs : List Char} {v : Value}
    (h : outcome limit st cs = .ok v) : outcome limit st (cs.filter (· != '\n')) = .ok v := by
  induction cs generalizing st with
  | nil => exact h
  | cons c cs ih =>
    obtain ⟨st', hstep, hrest⟩ := step_of_outcome h
    have hfiltered := ih (hasks.step hstep) hrest
    by_cases hc : c = '\n'
    · subst hc
      have hskip : ('\n' :: cs).filter (· != '\n') = cs.filter (· != '\n') := rfl
      rw [hskip]
      rcases step_lineBreak hasks hstep with rfl | hspoiled |
        ⟨shape', n, number, hfocus, hclosed, hfinish, haccept⟩
      · exact hfiltered
      -- the text could not have been read to its end
      · exact absurd hrest (hspoiled.outcome_ne_ok cs v)
      · exact outcome_of_number hfocus hclosed hfinish haccept hfiltered
    · have hkeep : (c :: cs).filter (· != '\n') = c :: cs.filter (· != '\n') := by
        simp [hc]
      rw [hkeep, outcome_cons, hstep]
      exact hfiltered

end

end Reader

/-- A text that is read gives the same value without its line breaks. -/
theorem read_filter {limit : Option Nat} {shape : Shape} {text : String} {v : Value}
    (h : read limit shape text = .ok v) :
    read limit shape (String.ofList (text.toList.filter (· != '\n'))) = .ok v := by
  rw [read_eq_outcome] at h
  rw [read_eq_outcome, String.toList_ofList]
  exact (asks_start shape).outcome_filter h

end ScriptFeatures.Json
