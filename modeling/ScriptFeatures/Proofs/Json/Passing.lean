import ScriptFeatures.Proofs.Json.LineBreaks
import ScriptFeatures.Proofs.Json.Tokens

/-!
Reading token by token. The reader passes from one state to another over some
tokens when everything that is read from the second state on is read from the
first one with the tokens in front, whatever spaces stand between them
(`Reader.Passes`). That passes are composed is all that brackets with commas
between their parts need (`Reader.passes_enclosed`).
-/

namespace ScriptFeatures.Json.Reader

/-- The states between two tokens. -/
inductive Between : State → Prop
  | await (stack : List Frame) (a : Await) : Between ⟨stack, .await a⟩
  | done (stack : List Frame) (v : Value) : Between ⟨stack, .done v⟩

theorem Completed.between {st : State} (h : Completed st) : Between st := by
  cases h with
  | done v => exact .done _ v
  | separator | rowEnd | memberEnd => exact .await _ _

theorem between_complete (stack : List Frame) (v : Value) : Between (complete stack v) :=
  (completed_complete stack v).between

section

variable {limit : Option Nat} {st st' st'' : State}

theorem Between.outcome_blank (h : Between st) {blank : List Char}
    (hblank : ∀ c ∈ blank, c ∈ spaces) (cs : List Char) :
    outcome limit st (blank ++ cs) = outcome limit st cs := by
  induction blank with
  | nil => rfl
  | cons c blank ih =>
    obtain ⟨hc, hblank⟩ := List.forall_mem_cons.mp hblank
    have hstep : step limit st c = .ok st := by
      have hsettled : settled limit st c = .ok st := if_pos (isSpace_eq_true.mpr hc)
      cases h <;> exact hsettled
    rw [List.cons_append, outcome_cons, hstep]
    exact ih hblank

/-- What is read behind some tokens is read from in front of them, too. -/
def Passes (limit : Option Nat) (tokens : List Token) (st st' : State) : Prop :=
  ∀ text, Spaced tokens text → ∀ cs v, outcome limit st' cs = .ok v →
    outcome limit st (text ++ cs) = .ok v

namespace Passes

theorem refl (st : State) : Passes limit [] st st := by
  rintro text htext cs v h
  cases htext
  exact h

theorem trans {tokens more : List Token} (h : Passes limit tokens st st')
    (h' : Passes limit more st' st'') : Passes limit (tokens ++ more) st st'' := by
  intro text htext cs v hrest
  obtain ⟨front, back, hfront, hback, rfl⟩ := htext.exists_append
  rw [List.append_assoc]
  exact h front hfront _ v (h' back hback cs v hrest)

theorem token {token : Token} (hst' : Between st')
    (h : ∀ cs v, outcome limit st' cs = .ok v → outcome limit st (token ++ cs) = .ok v) :
    Passes limit [token] st st' := by
  rintro text htext cs v hrest
  cases htext with
  | cons _ hblank htext =>
    cases htext
    rw [List.append_nil, List.append_assoc]
    exact h _ v ((hst'.outcome_blank hblank cs).trans hrest)

theorem mark {c : Char} (hst' : Between st') (h : step limit st c = .ok st') :
    Passes limit [[c]] st st' := by
  refine token hst' fun cs v hrest => ?_
  rw [List.singleton_append, outcome_cons, h]
  exact hrest

end Passes

/-! ### Brackets -/

/-- Parts in brackets: after some of them the reader waits for a comma or for
the closing bracket, and after a comma for the next one. -/
theorem passes_enclosed {α : Type} {part : α → List Token} {opening closing : Char}
    {all : List α} (next after : List α → State)
    (hopen : Passes limit [[opening]] st (next []))
    (hpart : ∀ xs x ys, all = xs ++ x :: ys →
      Passes limit (part x) (next xs) (after (xs ++ [x])))
    (hcomma : ∀ xs, xs ≠ [] → Passes limit [[',']] (after xs) (next xs))
    (hempty : all = [] → Passes limit [[closing]] (next []) st')
    (hclose : all ≠ [] → Passes limit [[closing]] (after all) st') :
    Passes limit (enclosed opening closing (all.map part)) st st' := by
  have hrest (xs ys : List α) (hxs : xs ≠ []) (hall : all = xs ++ ys) :
      Passes limit ((ys.map part).flatMap fun part => [','] :: part) (after xs) (after all) := by
    induction ys generalizing xs with
    | nil =>
      rw [hall, List.append_nil]
      exact .refl _
    | cons y ys ih =>
      have hall' : all = (xs ++ [y]) ++ ys := by rw [hall, List.append_assoc, List.singleton_append]
      exact (hcomma xs hxs).trans (hpart xs y ys hall) |>.trans (ih _ (by simp) hall')
  cases hall : all with
  | nil => exact hopen.trans (hempty hall)
  | cons x xs =>
    have hfirst := hopen.trans (hpart [] x xs hall)
    have hall' : all = [x] ++ xs := hall
    have hne : all ≠ [] := by simp [hall]
    rw [hall] at hrest hclose
    exact (hfirst.trans (hrest [x] xs (by simp) rfl)).trans (hclose (by simp))

/-! ### Where values stand -/

/-- A value of the shape may come next. -/
inductive Takes (shape : Shape) : Await → Prop
  | value : Takes shape (.value shape)
  | element (first : Bool) : Takes shape (.element shape first)

variable {stack : List Frame} {a : Await} {shape : Shape}

theorem Takes.step_eq (h : Takes shape a) {c : Char} (hspace : isSpace c = false) (hc : c ≠ ']') :
    step limit ⟨stack, .await a⟩ c = begin limit stack shape c := by
  have hbracket : (c == ']') = false := beq_eq_false_iff_ne.mpr hc
  cases h <;> simp [step, settled, Await.step, hspace, hbracket]

theorem passes_brackets {α : Type} {part : α → List Token} {all : List α} (frame : List α → Frame)
    {element : Shape} (h : Takes shape a)
    (hopen : openList limit stack shape =
      .ok ⟨frame [] :: stack, .await (.element element true)⟩)
    (hpart : ∀ xs x ys, all = xs ++ x :: ys →
      Passes limit (part x) ⟨frame xs :: stack, .await (.element element xs.isEmpty)⟩
        ⟨frame (xs ++ [x]) :: stack, .await (.separator element)⟩)
    (hst' : Between st') (hclose : close (frame all :: stack) = .ok st') :
    Passes limit (enclosed '[' ']' (all.map part)) ⟨stack, .await a⟩ st' := by
  refine passes_enclosed (fun xs => ⟨frame xs :: stack, .await (.element element xs.isEmpty)⟩)
    (fun xs => ⟨frame xs :: stack, .await (.separator element)⟩) ?_ hpart ?_ ?_ ?_
  · refine .mark (.await _ _) ?_
    rw [h.step_eq rfl (by decide)]
    exact hopen
  · intro xs hxs
    rw [List.isEmpty_eq_false_iff.mpr hxs]
    exact .mark (.await _ _) rfl
  · rintro rfl
    exact .mark hst' hclose
  · rintro -
    exact .mark hst' hclose

theorem passes_braces {α : Type} {part : α → List Token} {all : List α} (frame : List α → Frame)
    {ignored : Bool} (h : Takes shape a)
    (hopen : openObject limit stack shape = .ok ⟨frame [] :: stack, .await (.name true ignored)⟩)
    (hpart : ∀ xs x ys, all = xs ++ x :: ys →
      Passes limit (part x) ⟨frame xs :: stack, .await (.name xs.isEmpty ignored)⟩
        ⟨frame (xs ++ [x]) :: stack, .await (.memberEnd ignored)⟩)
    (hst' : Between st') (hclose : close (frame all :: stack) = .ok st') :
    Passes limit (enclosed '\x7b' '\x7d' (all.map part)) ⟨stack, .await a⟩ st' := by
  refine passes_enclosed (fun xs => ⟨frame xs :: stack, .await (.name xs.isEmpty ignored)⟩)
    (fun xs => ⟨frame xs :: stack, .await (.memberEnd ignored)⟩) ?_ hpart ?_ ?_ ?_
  · refine .mark (.await _ _) ?_
    rw [h.step_eq rfl (by decide)]
    exact hopen
  · intro xs hxs
    rw [List.isEmpty_eq_false_iff.mpr hxs]
    exact .mark (.await _ _) rfl
  · rintro rfl
    exact .mark hst' hclose
  · rintro -
    exact .mark hst' hclose

theorem passes_list {element : Shape} {part : Value → List Token} {items : List Value}
    (h : Takes shape a)
    (hopen : openList limit stack shape =
      .ok ⟨.list element [] :: stack, .await (.element element true)⟩)
    (hpart : ∀ v ∈ items, ∀ frame a, Takes element a →
      Passes limit (part v) ⟨frame :: stack, .await a⟩ (complete (frame :: stack) v)) :
    Passes limit (enclosed '[' ']' (items.map part)) ⟨stack, .await a⟩
      (complete stack (.array items)) := by
  refine passes_brackets (fun xs => .list element xs.reverse) h hopen ?_ (between_complete _ _) ?_
  · intro xs x ys hitems
    have hx : x ∈ items := by simp [hitems]
    rw [List.reverse_append]
    exact hpart x hx (.list element xs.reverse) _ (.element xs.isEmpty)
  · rw [close, Frame.close, List.reverse_reverse]
    rfl

end

end ScriptFeatures.Json.Reader
