import ScriptFeatures.Proofs.Json.Leading
import ScriptFeatures.Proofs.Json.ParseTree

/-!
Scalars along a parse tree. A word, a string or a number that is read where a
shape is asked for is read as a value of its parse tree, and then the reader has
handed that value to the container it stands in (`Reader.Completes`).
-/

namespace ScriptFeatures.Json.Reader

open ScriptFeatures.Decimal ParseTree

variable {limit : Option Nat} {stack : List Frame} {a : Await} {shape : Shape} {st : State}
  {P Q : State → Prop}

/-- A value that the parse tree is read as has been handed to the container it
stands in. -/
def Completes (stack : List Frame) (shape : Shape) (x : ParseTree) (st : State) : Prop :=
  ∃ w, Reads shape x w ∧ st = complete stack w

theorem Completes.between {x : ParseTree} (h : Completes stack shape x st) : Between st := by
  obtain ⟨w, -, rfl⟩ := h
  exact between_complete stack w

/-! ### Scalars -/

theorem reads_of_isIgnored {x : ParseTree} {v w : Value} (hshape : shape.isIgnored = true)
    (haccept : shape.accept v = .ok w) : Reads shape x w := by
  cases shape with
  | ignored => exact Except.ok.inj haccept ▸ .ignored x
  | any | string | natural _ | list _ | tuple _ | record _ _ _ => contradiction

theorem leads_null (h : Takes shape a) :
    Leads limit ParseTree.null.tokens ⟨stack, .await a⟩ (Completes stack shape .null) := by
  refine .token (fun _ => Completes.between) fun cs v _ hread => ?_
  rw [outcome_word h rfl (by decide) rfl (by simp)] at hread
  obtain ⟨w, haccept, hrest⟩ := exists_of_accept hread
  exact ⟨_, ⟨w, .null haccept, rfl⟩, hrest⟩

theorem leads_bool (h : Takes shape a) (b : Bool) :
    Leads limit (ParseTree.bool b).tokens ⟨stack, .await a⟩ (Completes stack shape (.bool b)) := by
  refine .token (fun _ => Completes.between) fun cs v _ hread => ?_
  have hword : outcome limit ⟨stack, .await a⟩ (wordText b ++ cs) =
      (accept stack shape (.bool b)).bind (outcome limit · cs) := by
    cases b with
    | true => exact outcome_word h rfl (by decide) rfl (by simp) cs
    | false => exact outcome_word h rfl (by decide) rfl (by simp) cs
  rw [hword] at hread
  obtain ⟨w, haccept, hrest⟩ := exists_of_accept hread
  exact ⟨_, ⟨w, .bool haccept, rfl⟩, hrest⟩

theorem textOf?_of_scan {token : Token} {s : StringScan}
    (hscan : scanAll (StringScan.step false) .start token.tail.dropLast = some s)
    (hplain : s.stage = .plain) : textOf? token = some s.text := by
  rw [textOf?, hscan, Option.bind_some, if_pos hplain]

theorem leads_string (h : Takes shape a) {token : Token} (htoken : IsString token) :
    Leads limit (ParseTree.string token).tokens ⟨stack, .await a⟩
      (Completes stack shape (.string token)) := by
  refine .token (fun _ => Completes.between) fun cs v _ hread => ?_
  obtain ⟨s, hscan, hplain, hread⟩ := exists_of_quoted (fun s => .scalar shape (.string s))
    shape.isIgnored (h.step_eq rfl (by decide)) (fun s c => ⟨fun s' hs => by simp only [step, hs],
      fun e hs => by simp only [step, hs]⟩) htoken hread
  have hquote : s.step shape.isIgnored '"' = .ok none := by
    rw [StringScan.step, hplain]
    rfl
  have hstep : step limit ⟨stack, .scalar shape (.string s)⟩ '"' =
      accept stack shape (.string s.text) := by
    simp only [step, hquote]
  rw [outcome_cons, hstep] at hread
  obtain ⟨w, haccept, hrest⟩ := exists_of_accept hread
  refine ⟨_, ⟨w, ?_, rfl⟩, hrest⟩
  cases hignored : shape.isIgnored with
  | true => exact reads_of_isIgnored hignored haccept
  | false =>
    rw [hignored] at hscan
    exact .string (textOf?_of_scan hscan hplain) haccept

theorem exists_of_number {n : NumberScan} (hclosed : n.isOpen = false) {cs : List Char}
    (hcs : Bounded cs) {v : Value}
    (h : outcome limit ⟨stack, .scalar shape (.number n)⟩ cs = .ok v) :
    ∃ number, n.finish shape.isIgnored = .ok number ∧
      (accept stack shape (.number number)).bind (outcome limit · cs) = .ok v := by
  cases cs with
  | nil =>
    change finish ⟨stack, .scalar shape (.number n)⟩ = .ok v at h
    simp only [finish] at h
    cases hfinish : n.finish shape.isIgnored with
    | error e =>
      simp only [hfinish, bind, Except.bind] at h
      contradiction
    | ok number =>
      refine ⟨number, rfl, ?_⟩
      simp only [hfinish, bind, Except.bind] at h
      cases haccept : accept stack shape (.number number) with
      | error e =>
        rw [haccept] at h
        contradiction
      | ok st =>
        rw [haccept] at h
        change finish st = .ok v
        cases completed_of_accept haccept <;> exact h
  | cons c cs =>
    obtain ⟨st, hstep, hrest⟩ := step_of_outcome h
    have hnumber := NumberScan.step_of_closes shape.isIgnored n (hcs c rfl)
    rw [hclosed, if_neg Bool.false_ne_true] at hnumber
    simp only [step, hnumber] at hstep
    cases hfinish : n.finish shape.isIgnored with
    | error e =>
      simp only [hfinish] at hstep
      contradiction
    | ok number =>
      refine ⟨number, rfl, ?_⟩
      simp only [hfinish] at hstep
      cases haccept : accept stack shape (.number number) with
      | error e =>
        simp only [haccept] at hstep
        contradiction
      | ok between =>
        simp only [haccept] at hstep
        rw [← (completed_of_accept haccept).step_eq] at hstep
        change outcome limit between (c :: cs) = .ok v
        rw [outcome_cons, hstep]
        exact hrest

theorem leads_number (h : Takes shape a) {token : Token} (htoken : IsNumber token) :
    Leads limit (ParseTree.number token).tokens ⟨stack, .await a⟩
      (Completes stack shape (.number token)) := by
  refine .token (fun _ => Completes.between) fun cs v hcs hread => ?_
  obtain ⟨c, ds, rfl, hc, hscans⟩ := NumberScan.scans_of_isNumber htoken shape.isIgnored
  rw [List.cons_append, outcome_cons, h.step_number hc] at hread
  obtain ⟨n, hscan, hclosed, hread⟩ := outcome_scans (fun n => .scalar shape (.number n))
    (fun n c => ⟨fun n' hn => by simp only [step, hn], fun e hn => by simp only [step, hn]⟩)
    hscans hread
  obtain ⟨number, hfinish, hread⟩ := exists_of_number hclosed hcs hread
  obtain ⟨w, haccept, hrest⟩ := exists_of_accept hread
  refine ⟨_, ⟨w, ?_, rfl⟩, hrest⟩
  cases hignored : shape.isIgnored with
  | true => exact reads_of_isIgnored hignored haccept
  | false =>
    rw [hignored] at hscan hfinish
    have hvalue : n.value = .ok number := hfinish
    refine .number ?_ haccept
    rw [numberOf?, hscan, Option.bind_some, hvalue]
    rfl

end ScriptFeatures.Json.Reader
