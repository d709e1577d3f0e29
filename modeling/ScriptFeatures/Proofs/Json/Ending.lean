import ScriptFeatures.Proofs.Json.Steps

/-!
The end of a text that was read as a container. A shape that accepts no scalar
is that of a list or an object, so the value is complete at a closing bracket,
and only spaces may stand behind it.
-/

namespace ScriptFeatures.Json.Reader

theorem run_append (limit : Option Nat) (st : State) (xs ys : List Char) :
    run limit st (xs ++ ys) = (run limit st xs).bind (run limit · ys) := by
  induction xs generalizing st with
  | nil => rfl
  | cons c xs ih =>
    rw [List.cons_append, run, run]
    cases step limit st c with
    | error e => rfl
    | ok st => exact ih st

theorem Asks.run {limit : Option Nat} {shape : Shape} {st st' : State} {cs : List Char}
    (hasks : Asks shape st) (h : run limit st cs = .ok st') : Asks shape st' := by
  induction cs generalizing st with
  | nil => exact Except.ok.inj h ▸ hasks
  | cons c cs ih =>
    rw [Reader.run] at h
    split at h
    · contradiction
    · next hstep => exact ih (hasks.step hstep) h

theorem length_stack_complete (stack : List Frame) (v : Value) :
    (complete stack v).stack.length = stack.length := by
  cases stack with
  | nil => rfl
  | cons frame rest =>
    cases frame with
    | tuple size todo read => rw [complete]; split <;> rfl
    | row name required optional todo read => simp only [complete]; split <;> rfl
    | list | object | record | ignoredList | ignoredObject => rfl

theorem accept_done {stack : List Frame} {shape : Shape} {v w : Value} {st : State}
    (h : accept stack shape v = .ok st) (hdone : st.focus = .done w) :
    stack = [] ∧ ∃ v', shape.accept v = .ok v' := by
  have hcompleted := completed_of_accept h
  rw [accept] at h
  cases haccept : shape.accept v with
  | error e =>
    rw [haccept] at h
    contradiction
  | ok v' =>
    rw [haccept] at h
    have hst : complete stack v' = st := Except.ok.inj h
    refine ⟨?_, v', rfl⟩
    cases hcompleted with
    | done =>
      have hlength := length_stack_complete stack v'
      rw [hst] at hlength
      exact List.eq_nil_of_length_eq_zero hlength.symm
    | separator | rowEnd | memberEnd => contradiction

theorem Focus.atEnd_eq_ok {focus : Focus} {v : Value} (h : focus.atEnd = .ok v) :
    focus = .done v := by
  cases focus with
  | done w => rw [Except.ok.inj h]
  | await a | name ignored s => contradiction
  | scalar shape s => cases s <;> contradiction

theorem finish_cases {st : State} {w : Value} (h : finish st = .ok w) :
    st.focus = .done w ∨ ∃ shape n v st', st.focus = .scalar shape (.number n) ∧
      accept st.stack shape v = .ok st' ∧ st'.focus = .done w := by
  unfold finish at h
  split at h
  · next shape n hfocus =>
    cases hn : n.finish shape.isIgnored with
    | error e =>
      rw [hn] at h
      contradiction
    | ok v =>
      rw [hn] at h
      cases haccept : accept st.stack shape (.number v) with
      | error e =>
        simp only [haccept, bind, Except.bind] at h
        contradiction
      | ok st' =>
        simp only [haccept, bind, Except.bind] at h
        exact .inr ⟨shape, n, _, st', hfocus, haccept, Focus.atEnd_eq_ok h⟩
  · exact .inl (Focus.atEnd_eq_ok h)

section

variable {limit : Option Nat} {shape : Shape} {st : State}

theorem Asks.not_accept_done (hasks : Asks shape st)
    (hshape : ∀ v v', shape.accept v ≠ .ok v') {shape' : Shape} {s : Scalar} {v w : Value}
    {st' : State} (hfocus : st.focus = .scalar shape' s)
    (h : accept st.stack shape' v = .ok st') : st'.focus ≠ .done w := by
  intro hdone
  obtain ⟨hstack, v', haccept⟩ := accept_done h hdone
  rcases hasks.top hstack with heq | ⟨_, heq⟩ | ⟨_, heq⟩
  · rw [hfocus] at heq
    contradiction
  · rw [hfocus] at heq
    rw [(Focus.scalar.inj heq).1] at haccept
    exact hshape v v' haccept
  · rw [hfocus] at heq
    contradiction

theorem Asks.finish_eq_ok (hasks : Asks shape st) (hshape : ∀ v v', shape.accept v ≠ .ok v')
    {w : Value} (h : finish st = .ok w) : st.focus = .done w := by
  rcases finish_cases h with hdone | ⟨shape', n, v, st', hfocus, haccept, hdone⟩
  · exact hdone
  -- a number at the end of the text would have to be the whole value
  · exact absurd hdone (hasks.not_accept_done hshape hfocus haccept)

theorem Followed.closes_of_done {stack : List Frame} {a : Await} {c : Char} {w : Value}
    (h : Followed stack a c st) (hdone : st.focus = .done w) : c = ']' ∨ c = '\x7d' := by
  cases h with
  | closed hc _ => exact hc
  | value _ hbegun | element _ hbegun => cases hbegun <;> contradiction
  | name | awaits => contradiction

/-- The result of a list or an object comes with a closing bracket, and stays
over spaces. -/
theorem Asks.step_done (hasks : Asks shape st) (hshape : ∀ v v', shape.accept v ≠ .ok v')
    {c : Char} {w : Value} {st' : State} (h : Reader.step limit st c = .ok st')
    (hdone : st'.focus = .done w) : isSpace c = true ∨ c = ']' ∨ c = '\x7d' := by
  cases stepped_of_step h with
  | space hc => exact .inl hc
  | followed _ hfollowed => exact .inr (hfollowed.closes_of_done hdone)
  | name | scalar => contradiction
  | named hfocus hnamed =>
    obtain ⟨-, shape', hcolon⟩ := named_eq_ok hnamed (hasks.stack_ne_nil hfocus)
    rw [hcolon] at hdone
    contradiction
  | accepted hfocus haccept => exact absurd hdone (hasks.not_accept_done hshape hfocus haccept)
  | acceptedBefore hfocus haccept hnext =>
    rcases hnext with ⟨hc, -⟩ | ⟨a, _, hfollowed⟩
    · exact .inl hc
    · exact .inr (hfollowed.closes_of_done hdone)

end

theorem settled_of_done {limit : Option Nat} {st : State} {v : Value}
    (hdone : st.focus = .done v) (c : Char) :
    step limit st c = if isSpace c then .ok st else .error .trailingText := by
  simp only [step, settled, hdone]

theorem run_of_done {limit : Option Nat} {st : State} {v : Value} (hdone : st.focus = .done v)
    (cs : List Char) :
    run limit st cs = if cs.all isSpace then .ok st else .error .trailingText := by
  induction cs with
  | nil => rfl
  | cons c cs ih =>
    rw [run, settled_of_done hdone, List.all_cons]
    cases isSpace c
    · rfl
    · exact ih

theorem last_of_read {limit : Option Nat} {shape : Shape}
    (hshape : ∀ v v', shape.accept v ≠ .ok v') {text : String} {w : Value}
    (h : read limit shape text = .ok w) :
    ∃ cs c, text.toList = cs ++ [c] ∧ (isSpace c = true ∨ c = ']' ∨ c = '\x7d') := by
  rw [read] at h
  split at h
  · contradiction
  next st hrun =>
  have hdone := ((asks_start shape).run hrun).finish_eq_ok hshape h
  rcases List.eq_nil_or_concat text.toList with hnil | ⟨cs, c, hcs⟩
  · rw [hnil] at hrun
    rw [← Except.ok.inj hrun] at hdone
    contradiction
  · rw [List.concat_eq_append] at hcs
    refine ⟨cs, c, hcs, ?_⟩
    -- the step on the last character leads to the result
    rw [hcs, run_append] at hrun
    cases hbefore : run limit (.start shape) cs with
    | error e =>
      rw [hbefore] at hrun
      contradiction
    | ok before =>
      rw [hbefore] at hrun
      change run limit before [c] = .ok st at hrun
      rw [run] at hrun
      split at hrun
      · contradiction
      next st' hstep =>
      have hst : st' = st := Except.ok.inj hrun
      subst hst
      exact ((asks_start shape).run hbefore).step_done hshape hstep hdone

end ScriptFeatures.Json.Reader
