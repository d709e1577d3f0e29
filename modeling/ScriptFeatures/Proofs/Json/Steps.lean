import ScriptFeatures.Json.Reader

/-!
What one step of the reader can do. A value that is complete leaves the reader
waiting for what separates or closes (`Reader.Completed`), a value that begins
is a scalar or a container that is opened (`Reader.Begun`), and all else that
may happen between two tokens keeps the open containers (`Reader.Followed`).
The cases of a whole step (`Reader.Stepped`) are these and the ones inside a
token, and every state that is reached still asks for the value it began with
(`Reader.Asks`).
-/

namespace ScriptFeatures.Json.Reader

/-- The states in which a value has just been completed: at the top it is the
result, and in a container a separator or the end of the container comes
next. -/
inductive Completed : State → Prop
  | done (v : Value) : Completed ⟨[], .done v⟩
  | separator (frame : Frame) (rest : List Frame) (next : Shape) :
      Completed ⟨frame :: rest, .await (.separator next)⟩
  | rowEnd (frame : Frame) (rest : List Frame) : Completed ⟨frame :: rest, .await .rowEnd⟩
  | memberEnd (frame : Frame) (rest : List Frame) (ignored : Bool) :
      Completed ⟨frame :: rest, .await (.memberEnd ignored)⟩

/-- The states in which a value of a shape has just begun. -/
inductive Begun (stack : List Frame) (shape : Shape) : State → Prop
  | string : Begun stack shape ⟨stack, .scalar shape (.string .start)⟩
  | number (c : Char) : Begun stack shape ⟨stack, .scalar shape (.number (.start c))⟩
  | word (letters : List Char) (v : Value) (h : '\n' ∉ letters) :
      Begun stack shape ⟨stack, .scalar shape (.word letters v)⟩
  | opened (frame : Frame) (a : Await) : Begun stack shape ⟨frame :: stack, .await a⟩

inductive Followed (stack : List Frame) (a : Await) (c : Char) : State → Prop
  | closed {st : State} (hc : c = ']' ∨ c = '\x7d') (h : Completed st) : Followed stack a c st
  | value {shape : Shape} {st : State} (ha : a = .value shape) (h : Begun stack shape st) :
      Followed stack a c st
  | element {shape : Shape} {first : Bool} {st : State} (ha : a = .element shape first)
      (h : Begun stack shape st) : Followed stack a c st
  | name (first ignored : Bool) (ha : a = .name first ignored) :
      Followed stack a c ⟨stack, .name ignored .start⟩
  | awaits (a' : Await) (ha : ∀ shape, a ≠ .value shape) : Followed stack a c ⟨stack, .await a'⟩

/-! ### Values that are complete -/

theorem completed_complete (stack : List Frame) (v : Value) : Completed (complete stack v) := by
  cases stack with
  | nil => exact .done v
  | cons frame rest =>
    cases frame with
    | list element read => exact .separator ..
    | tuple size todo read =>
      rw [complete]
      split
      · exact .rowEnd ..
      · exact .separator ..
    | row name required optional todo read =>
      simp only [complete]
      split
      · exact .rowEnd ..
      · exact .separator ..
    | object read name => exact .memberEnd ..
    | record required optional read name => exact .memberEnd ..
    | ignoredList => exact .separator ..
    | ignoredObject => exact .memberEnd ..

theorem completed_of_map {stack : List Frame} {r : Except Error Value} {st : State}
    (h : complete stack <$> r = .ok st) : Completed st := by
  cases r with
  | error e => contradiction
  | ok v =>
    rw [← Except.ok.inj h]
    exact completed_complete stack v

theorem completed_of_accept {stack : List Frame} {shape : Shape} {v : Value} {st : State}
    (h : accept stack shape v = .ok st) : Completed st :=
  completed_of_map h

theorem completed_of_close {stack : List Frame} {st : State} (h : close stack = .ok st) :
    Completed st := by
  cases stack with
  | nil => contradiction
  | cons frame rest => exact completed_of_map h

/-! ### Values that begin -/

theorem begun_of_enter {limit : Option Nat} {stack : List Frame} {frame : Frame} {a : Await}
    {shape : Shape} {st : State} (h : enter limit stack frame a = .ok st) :
    Begun stack shape st := by
  rw [enter] at h
  split at h
  · contradiction
  · rw [← Except.ok.inj h]
    exact .opened frame a

theorem begun_of_openList {limit : Option Nat} {stack : List Frame} {shape : Shape} {st : State}
    (h : openList limit stack shape = .ok st) : Begun stack shape st := by
  cases shape with
  | any | list _ | tuple _ | record _ _ _ => exact begun_of_enter h
  | ignored =>
    rw [← Except.ok.inj h]
    exact .opened ..
  | string | natural _ => contradiction

theorem begun_of_openObject {limit : Option Nat} {stack : List Frame} {shape : Shape} {st : State}
    (h : openObject limit stack shape = .ok st) : Begun stack shape st := by
  cases shape with
  | any | record _ _ _ => exact begun_of_enter h
  | ignored =>
    rw [← Except.ok.inj h]
    exact .opened ..
  | string | natural _ | list _ | tuple _ => contradiction

theorem begun_of_begin {limit : Option Nat} {stack : List Frame} {shape : Shape} {c : Char}
    {st : State} (h : begin limit stack shape c = .ok st) : Begun stack shape st := by
  simp only [begin] at h
  -- one test after the other for what the character may begin
  split at h
  · rw [← Except.ok.inj h]
    exact .string
  split at h
  · rw [← Except.ok.inj h]
    exact .number c
  split at h
  · rw [← Except.ok.inj h]
    exact .word _ _ (by decide)
  split at h
  · rw [← Except.ok.inj h]
    exact .word _ _ (by decide)
  split at h
  · rw [← Except.ok.inj h]
    exact .word _ _ (by decide)
  split at h
  · exact begun_of_openList h
  split at h
  · exact begun_of_openObject h
  · contradiction

/-! ### Between two tokens -/

theorem followed_of_step {limit : Option Nat} {stack : List Frame} {a : Await} {c : Char}
    {st : State} (h : a.step limit stack c = .ok st) : Followed stack a c st := by
  cases a with
  | element shape first =>
    simp only [Await.step, Bool.and_eq_true, beq_iff_eq] at h
    split at h
    · next hc => exact .closed (.inl hc.1) (completed_of_close h)
    · split at h
      · contradiction
      · exact .element rfl (begun_of_begin h)
  | separator next =>
    simp only [Await.step, beq_iff_eq] at h
    split at h
    · rw [← Except.ok.inj h]
      exact .awaits _ (by simp)
    · split at h
      · next hc => exact .closed (.inl hc) (completed_of_close h)
      · contradiction
  | rowEnd =>
    simp only [Await.step, beq_iff_eq] at h
    split at h
    · next hc => exact .closed (.inl hc) (completed_of_close h)
    · split at h
      · rw [← Except.ok.inj h]
        exact .awaits _ (by simp)
      · contradiction
  | afterRowComma => contradiction
  | name first ignored =>
    simp only [Await.step, Bool.and_eq_true, beq_iff_eq] at h
    split at h
    · rw [← Except.ok.inj h]
      exact .name first ignored rfl
    · split at h
      · next hc => exact .closed (.inr hc.1) (completed_of_close h)
      · split at h <;> contradiction
  | colon shape =>
    simp only [Await.step, beq_iff_eq] at h
    split at h
    · rw [← Except.ok.inj h]
      exact .awaits _ (by simp)
    · contradiction
  | value shape => exact .value rfl (begun_of_begin h)
  | memberEnd ignored =>
    simp only [Await.step, beq_iff_eq] at h
    split at h
    · rw [← Except.ok.inj h]
      exact .awaits _ (by simp)
    · split at h
      · next hc => exact .closed (.inr hc) (completed_of_close h)
      · contradiction

theorem named_eq_ok {stack : List Frame} {name : String} {st : State}
    (h : named stack name = .ok st) (hstack : stack ≠ []) :
    st.stack ≠ [] ∧ ∃ shape, st.focus = .await (.colon shape) := by
  unfold named at h
  split at h
  · rw [← Except.ok.inj h]
    exact ⟨by simp, _, rfl⟩
  · split at h
    · split at h
      · contradiction
      · rw [← Except.ok.inj h]
        exact ⟨by simp, _, rfl⟩
    · rw [← Except.ok.inj h]
      exact ⟨by simp, _, rfl⟩
  · rw [← Except.ok.inj h]
    exact ⟨hstack, _, rfl⟩

/-! ### Whole steps -/

def Scalar.letters : Scalar → List Char
  | .word rest _ => rest
  | .number _ | .string _ => []

/-- The states that a step may lead to. -/
inductive Stepped (st : State) (c : Char) : State → Prop
  | space (hc : isSpace c = true) : Stepped st c st
  | followed {a : Await} {st' : State} (hfocus : st.focus = .await a)
      (h : Followed st.stack a c st') : Stepped st c st'
  | name {ignored : Bool} {s s' : StringScan} (hfocus : st.focus = .name ignored s)
      (h : s.step ignored c = .ok (some s')) : Stepped st c ⟨st.stack, .name ignored s'⟩
  | named {ignored : Bool} {s : StringScan} {st' : State} (hfocus : st.focus = .name ignored s)
      (h : named st.stack s.text = .ok st') : Stepped st c st'
  | scalar {shape : Shape} {s s' : Scalar} (hfocus : st.focus = .scalar shape s)
      (h : s'.letters ⊆ s.letters) : Stepped st c ⟨st.stack, .scalar shape s'⟩
  | accepted {shape : Shape} {s : Scalar} {v : Value} {st' : State}
      (hfocus : st.focus = .scalar shape s) (h : accept st.stack shape v = .ok st') :
      Stepped st c st'
  /-- The character that ends a number is read after it. -/
  | acceptedBefore {shape : Shape} {s : Scalar} {v : Value} {between st' : State}
      (hfocus : st.focus = .scalar shape s) (h : accept st.stack shape v = .ok between)
      (hnext : isSpace c = true ∧ st' = between ∨
        ∃ a, between.focus = .await a ∧ Followed between.stack a c st') :
      Stepped st c st'

theorem settled_cases {limit : Option Nat} {st st' : State} {c : Char}
    (h : settled limit st c = .ok st') :
    isSpace c = true ∧ st' = st ∨ ∃ a, st.focus = .await a ∧ Followed st.stack a c st' := by
  rw [settled] at h
  split at h
  · next hc => exact .inl ⟨hc, (Except.ok.inj h).symm⟩
  · cases hfocus : st.focus with
    | await a =>
      rw [hfocus] at h
      exact .inr ⟨a, rfl, followed_of_step h⟩
    | scalar shape s | name ignored s | done v =>
      rw [hfocus] at h
      contradiction

theorem stepped_of_settled {limit : Option Nat} {st st' : State} {c : Char}
    (h : settled limit st c = .ok st') : Stepped st c st' := by
  rcases settled_cases h with ⟨hc, rfl⟩ | ⟨a, hfocus, hfollowed⟩
  · exact .space hc
  · exact .followed hfocus hfollowed

theorem stepped_of_step {limit : Option Nat} {st st' : State} {c : Char}
    (h : step limit st c = .ok st') : Stepped st c st' := by
  unfold step at h
  split at h
  · exact stepped_of_settled h
  · exact stepped_of_settled h
  -- a token under way is refused, goes on or is complete
  · next ignored s hfocus =>
    split at h
    · contradiction
    · next hs =>
      rw [← Except.ok.inj h]
      exact .name hfocus hs
    · exact .named hfocus h
  · next shape s hfocus =>
    split at h
    · contradiction
    · rw [← Except.ok.inj h]
      exact .scalar hfocus (List.nil_subset _)
    · exact .accepted hfocus h
  · next shape rest v hfocus =>
    split at h
    · contradiction
    · split at h
      · exact .accepted hfocus h
      · contradiction
    · split at h
      · rw [← Except.ok.inj h]
        exact .scalar hfocus (List.subset_cons_self _ _)
      · contradiction
  · next shape n hfocus =>
    split at h
    · contradiction
    · rw [← Except.ok.inj h]
      exact .scalar hfocus (List.nil_subset _)
    · split at h
      · contradiction
      · split at h
        · contradiction
        -- the character is not one of the number and is read once more
        · next haccept => exact .acceptedBefore hfocus haccept (settled_cases h)

/-! ### What is asked for -/

/-- No letter that is awaited is a line break, and outside all containers the
value under way is the one of the shape that was asked for. -/
structure Asks (shape : Shape) (st : State) : Prop where
  letters {shape' : Shape} {s : Scalar} : st.focus = .scalar shape' s → '\n' ∉ s.letters
  top : st.stack = [] → st.focus = .await (.value shape) ∨
    (∃ s, st.focus = .scalar shape s) ∨ ∃ v, st.focus = .done v

theorem asks_start (shape : Shape) : Asks shape (.start shape) where
  letters h := by contradiction
  top _ := .inl rfl

theorem Completed.asks {st : State} (h : Completed st) (shape : Shape) : Asks shape st := by
  constructor
  · intro shape' s hfocus
    cases h <;> contradiction
  · intro hstack
    cases h with
    | done v => exact .inr (.inr ⟨v, rfl⟩)
    | separator | rowEnd | memberEnd => contradiction

theorem asks_scalar {stack : List Frame} {shape shape' : Shape} {s : Scalar}
    (hletters : '\n' ∉ s.letters) (hshape : stack = [] → shape' = shape) :
    Asks shape ⟨stack, .scalar shape' s⟩ := by
  constructor
  · intro shape'' s' hfocus
    rw [← (Focus.scalar.inj hfocus).2]
    exact hletters
  · intro hstack
    exact .inr (.inl ⟨s, by rw [hshape hstack]⟩)

theorem Begun.asks {stack : List Frame} {shape shape' : Shape} {st : State}
    (h : Begun stack shape' st) (hshape : stack = [] → shape' = shape) : Asks shape st := by
  cases h with
  | string => exact asks_scalar List.not_mem_nil hshape
  | number c => exact asks_scalar List.not_mem_nil hshape
  | word letters v hletters => exact asks_scalar hletters hshape
  | opened frame a => exact ⟨fun hfocus => by contradiction, fun hstack => by contradiction⟩

theorem Followed.asks {stack : List Frame} {a : Await} {c : Char} {shape : Shape} {st : State}
    (h : Followed stack a c st) (hasks : Asks shape ⟨stack, .await a⟩) : Asks shape st := by
  -- outside all containers only the value itself is awaited
  have htop : stack = [] → a = .value shape := by
    intro hstack
    rcases hasks.top hstack with hfocus | ⟨s, hfocus⟩ | ⟨v, hfocus⟩
    · exact Focus.await.inj hfocus
    · contradiction
    · contradiction
  cases h with
  | closed _ hcompleted => exact hcompleted.asks shape
  | value ha hbegun =>
    refine hbegun.asks fun hstack => ?_
    exact Await.value.inj (ha.symm.trans (htop hstack))
  | element ha hbegun =>
    refine hbegun.asks fun hstack => ?_
    have hvalue := ha.symm.trans (htop hstack)
    contradiction
  | name first ignored ha =>
    refine ⟨fun hfocus => by contradiction, fun hstack => ?_⟩
    have hvalue := ha.symm.trans (htop hstack)
    contradiction
  | awaits a' ha =>
    exact ⟨fun hfocus => by contradiction, fun hstack => absurd (htop hstack) (ha shape)⟩

theorem Asks.stack_ne_nil {shape : Shape} {st : State} (hasks : Asks shape st) {ignored : Bool}
    {s : StringScan} (hfocus : st.focus = .name ignored s) : st.stack ≠ [] := by
  intro hstack
  have htop := hasks.top hstack
  rw [hfocus] at htop
  rcases htop with heq | ⟨_, heq⟩ | ⟨_, heq⟩ <;> contradiction

theorem Asks.step {limit : Option Nat} {shape : Shape} {st st' : State} {c : Char}
    (hasks : Asks shape st) (h : step limit st c = .ok st') : Asks shape st' := by
  cases stepped_of_step h with
  | space => exact hasks
  | followed hfocus hfollowed =>
    obtain ⟨stack, focus⟩ := st
    subst hfocus
    exact hfollowed.asks hasks
  | name hfocus _ =>
    refine ⟨fun heq => by contradiction, fun hstack => ?_⟩
    exact absurd hstack (hasks.stack_ne_nil hfocus)
  | named hfocus hnamed =>
    obtain ⟨hstack, shape', hcolon⟩ := named_eq_ok hnamed (hasks.stack_ne_nil hfocus)
    refine ⟨fun heq => ?_, fun hnil => absurd hnil hstack⟩
    rw [hcolon] at heq
    contradiction
  | @scalar shape' s s' hfocus hletters =>
    refine asks_scalar (fun hmem => hasks.letters hfocus (hletters hmem)) fun hstack => ?_
    have htop := hasks.top hstack
    rw [hfocus] at htop
    rcases htop with heq | ⟨_, heq⟩ | ⟨_, heq⟩
    · contradiction
    · exact (Focus.scalar.inj heq).1
    · contradiction
  | accepted _ haccept => exact (completed_of_accept haccept).asks shape
  | @acceptedBefore _ _ _ between _ _ haccept hnext =>
    have hbetween := (completed_of_accept haccept).asks shape
    rcases hnext with ⟨-, rfl⟩ | ⟨a, hfocus, hfollowed⟩
    · exact hbetween
    · obtain ⟨stack, focus⟩ := between
      subst hfocus
      exact hfollowed.asks hbetween

end ScriptFeatures.Json.Reader
