import ScriptFeatures.Proofs.Json.Ignored

/-!
Reading forced by tokens. A text that is read to its end with some tokens at its
front leads the reader over them, whatever spaces stand between them, and leaves
it in one of the states that the tokens allow (`Reader.Leads`). This is the
other direction of `Reader.Passes`. A number reaches as far as characters go
that continue it, so what stands behind a value has to end it (`Reader.Bounded`),
as everything does that may follow a value in a text.
-/

namespace ScriptFeatures.Json

open ScriptFeatures.Decimal

/-! ### Scanning -/

/-- Scanning some characters leads to a state of some kind, if nothing in them
is refused: none of them ends what is scanned. -/
def Scans {σ : Type} (step : σ → Char → Except Error (Option σ)) (good : σ → Prop) :
    σ → List Char → Prop
  | s, [] => good s
  | s, c :: cs => ∀ r, step s c = .ok r → ∃ s', r = some s' ∧ Scans step good s' cs

namespace Scans

variable {σ : Type} {step : σ → Char → Except Error (Option σ)} {good good' : σ → Prop} {s t : σ}
  {c : Char} {cs ds : List Char}

theorem cons (hstep : step s c = .ok (some t)) (h : Scans step good t cs) :
    Scans step good s (c :: cs) := by
  intro r hr
  rw [hstep] at hr
  exact ⟨t, (Except.ok.inj hr).symm, h⟩

theorem refused {e : Error} (hstep : step s c = .error e) (cs : List Char) :
    Scans step good s (c :: cs) := by
  intro r hr
  rw [hstep] at hr
  contradiction

theorem append (h : Scans step good s cs) (h' : ∀ s', good s' → Scans step good' s' ds) :
    Scans step good' s (cs ++ ds) := by
  induction cs generalizing s with
  | nil => exact h' s h
  | cons c cs ih =>
    intro r hr
    obtain ⟨s', rfl, hrest⟩ := h r hr
    exact ⟨s', rfl, ih hrest⟩

/-- A scan that refuses less decides what is scanned. -/
theorem of_scanAll {step' : σ → Char → Except Error (Option σ)}
    (hle : ∀ s c r, step s c = .ok r → step' s c = .ok r) (h : scanAll step' s cs = some s')
    (hgood : good s') : Scans step good s cs := by
  induction cs generalizing s with
  | nil =>
    rw [← Option.some.inj h] at hgood
    exact hgood
  | cons c cs ih =>
    intro r hr
    rw [scanAll, hle s c r hr] at h
    cases r with
    | none => contradiction
    | some s'' => exact ⟨s'', rfl, ih h⟩

end Scans

/-! #### Numbers -/

namespace NumberScan

theorem step_skim {n : NumberScan} {c : Char} {r : Option NumberScan} {skim : Bool}
    (h : n.step skim c = .ok r) : n.step true c = .ok r := by
  have hexponent {r : Except Error NumberScan} (hr : n.exponentDigit skim c = r)
      (hok : ∃ n', r = .ok n') : n.exponentDigit true c = r := by
    obtain ⟨n', rfl⟩ := hok
    rw [exponentDigit] at hr ⊢
    split
    · next hfits => rwa [if_pos hfits] at hr
    · next hfits =>
      rw [if_neg hfits] at hr
      split at hr
      · contradiction
      · simpa using hr
  have hmap (hr : some <$> n.exponentDigit skim c = .ok r) :
      some <$> n.exponentDigit true c = .ok r := by
    cases hdigit : n.exponentDigit skim c with
    | error e =>
      rw [hdigit] at hr
      contradiction
    | ok n' =>
      rw [hdigit] at hr
      rwa [hexponent hdigit ⟨n', rfl⟩]
  rw [step] at h ⊢
  cases hstage : n.stage with
  | exponentMark =>
    simp only [hstage] at h ⊢
    split_ifs at h ⊢
    all_goals first | exact h | exact hmap h
  | exponentSign | exponent =>
    simp only [hstage] at h ⊢
    split_ifs at h ⊢
    all_goals first | exact h | exact hmap h
  | sign | leadingZero | whole | droppedWhole | point | fraction | droppedFraction | hugeExponent =>
    simpa only [hstage] using h

theorem scans_of_isNumber {token : Token} (h : IsNumber token) (skim : Bool) :
    ∃ c cs, token = c :: cs ∧ (c = '-' ∨ c.isDigit = true) ∧
      Scans (step skim) (fun n => n.isOpen = false) (start c) cs := by
  obtain ⟨c, cs, n, rfl, hc, hscan, hclosed⟩ := exists_scan_of_isNumber h
  exact ⟨c, cs, rfl, hc, .of_scanAll (fun n c r hr => step_skim hr) hscan hclosed⟩

end NumberScan

/-! #### Strings -/

namespace StringScan

/-- Between two parts of a string: behind the first half of a surrogate pair
the second half is still to come. -/
def AtUnit (s : StringScan) : Prop := s.stage = .plain ∨ ∃ high, s.stage = .secondBackslash high

variable {skim : Bool} {s : StringScan}

theorem step_hex {high : Option Nat} {read : List Char} {c : Char}
    (hs : s.stage = .hex high read) (hread : ∀ d ∈ c :: read, d ∈ hexDigits)
    (hlength : read.length < 3) :
    s.step skim c = .ok (some { s with stage := .hex high (c :: read) }) := by
  have hopen : byteCount (c :: read) < 4 := by
    rw [byteCount_hexDigits hread, List.length_cons]
    omega
  simp only [step, hs, hexDigit, hopen, if_true]
  rfl

theorem atUnit_of_unit {high : Option Nat} {n : Nat} {s' : StringScan}
    (h : s.unit skim high n = .ok s') : s'.AtUnit := by
  cases skim with
  | true => exact Except.ok.inj h ▸ .inl rfl
  | false =>
    cases high with
    | none =>
      simp only [unit, Bool.false_eq_true, if_false] at h
      split_ifs at h
      · exact Except.ok.inj h ▸ .inr ⟨n, rfl⟩
      · exact Except.ok.inj h ▸ .inl rfl
    | some high =>
      simp only [unit, Bool.false_eq_true, if_false] at h
      split_ifs at h
      exact Except.ok.inj h ▸ .inl rfl

theorem scans_code {high : Option Nat} (hs : s.stage = .hex high []) {a b c d : Char}
    (ha : a ∈ hexDigits) (hb : b ∈ hexDigits) (hc : c ∈ hexDigits) (hd : d ∈ hexDigits) :
    Scans (step skim) AtUnit s [a, b, c, d] := by
  obtain ⟨n, hn⟩ := exists_codeUnit ha hb hc hd
  refine .cons (step_hex hs (by simp [ha]) (by simp)) ?_
  refine .cons (step_hex rfl (by simp [ha, hb]) (by simp)) ?_
  refine .cons (step_hex rfl (by simp [ha, hb, hc]) (by simp)) ?_
  intro r hr
  have hfull : ¬ byteCount [d, c, b, a] < 4 := by
    rw [byteCount_hexDigits (by simp [ha, hb, hc, hd])]
    simp
  have hreverse : [d, c, b, a].reverse = [a, b, c, d] := rfl
  simp only [step, hexDigit, hfull, if_false, hreverse, hn] at hr
  cases hunit : unit skim { s with stage := .hex high [c, b, a] } high n with
  | error e =>
    rw [hunit] at hr
    contradiction
  | ok s' =>
    rw [hunit] at hr
    exact ⟨s', (Except.ok.inj hr).symm, atUnit_of_unit hunit⟩

theorem scans_of_isUnit {unit : List Char} (h : IsUnit unit) (hs : s.AtUnit) :
    Scans (step skim) AtUnit s unit := by
  have hbackslash (hplain : s.stage = .plain) :
      s.step skim '\\' = .ok (some { s with stage := .backslash }) := by
    simp [step, hplain]
  have hsecond (high : Nat) (hhigh : s.stage = .secondBackslash high) :
      s.step skim '\\' = .ok (some { s with stage := .secondMark high }) := by
    simp [step, hhigh]
  cases h with
  | @plain c hcontrol hquote hother =>
    rcases hs with hplain | ⟨high, hhigh⟩
    · have hval : ¬ c.val < 0x20 := fun hlt =>
        absurd (UInt32.lt_iff_toNat_lt.mp hlt) (Nat.not_lt.mpr hcontrol)
      refine .cons (t := s.push c) ?_ (.inl rfl)
      simp [step, hplain, hquote, hother, hval]
    · exact .refused (e := .unfinishedSurrogatePair) (by simp [step, hhigh, hother]) []
  | @escape c hc =>
    have hescaped : c ≠ 'u' ∧ ∃ d, escaped? c = some d := by
      simp only [List.mem_cons, List.not_mem_nil, or_false] at hc
      rcases hc with rfl | rfl | rfl | rfl | rfl | rfl | rfl | rfl <;>
        exact ⟨by decide, _, rfl⟩
    obtain ⟨hunicode, d, hd⟩ := hescaped
    rcases hs with hplain | ⟨high, hhigh⟩
    · refine .cons (hbackslash hplain) (.cons (t := s.push d) ?_ (.inl rfl))
      simp [step, hunicode, hd, push]
    · refine .cons (hsecond high hhigh) ?_
      exact .refused (e := .unfinishedSurrogatePair) (by simp [step, hunicode]) []
  | @code a b c d ha hb hc hd =>
    rcases hs with hplain | ⟨high, hhigh⟩
    · refine .cons (hbackslash hplain) (.cons (t := { s with stage := .hex none [] }) rfl ?_)
      exact scans_code rfl ha hb hc hd
    · refine .cons (hsecond high hhigh)
        (.cons (t := { s with stage := .hex (some high) [] }) rfl ?_)
      exact scans_code rfl ha hb hc hd

theorem scans_of_isString {token : Token} (h : IsString token) (skim : Bool) :
    ∃ body, token = '"' :: body ++ ['"'] ∧ Scans (step skim) AtUnit .start body := by
  obtain ⟨hunits⟩ := h
  rename_i units
  refine ⟨units.flatten, rfl, ?_⟩
  have hscan : ∀ s : StringScan, s.AtUnit → Scans (step skim) AtUnit s units.flatten := by
    induction units with
    | nil => exact fun s hs => hs
    | cons unit units ih =>
      intro s hs
      obtain ⟨hunit, hunits⟩ := List.forall_mem_cons.mp hunits
      exact (scans_of_isUnit hunit hs).append (ih hunits)
  exact hscan .start (.inl rfl)

end StringScan

namespace Reader

variable {limit : Option Nat} {st : State} {P Q : State → Prop} {stack : List Frame} {a : Await}
  {shape : Shape}

/-! ### Tokens -/

/-- A value ends in front of the characters. -/
def Bounded (cs : List Char) : Prop := ∀ c ∈ cs.head?, Closes c

theorem Bounded.blank {blank : List Char} (hblank : ∀ c ∈ blank, c ∈ spaces) {cs : List Char}
    (h : Bounded cs) : Bounded (blank ++ cs) := by
  cases blank with
  | nil => exact h
  | cons c blank =>
    intro d hd
    rw [List.cons_append, List.head?_cons, Option.mem_some_iff] at hd
    exact .inl (isSpace_eq_true.mpr (hd ▸ hblank c List.mem_cons_self))

/-- What is read with some tokens in front is read from behind them, too, in
some state of a kind. -/
def Leads (limit : Option Nat) (tokens : List Token) (st : State) (P : State → Prop) : Prop :=
  ∀ text, Spaced tokens text → ∀ cs v, Bounded cs → outcome limit st (text ++ cs) = .ok v →
    ∃ st', P st' ∧ outcome limit st' cs = .ok v

namespace Leads

theorem mono {tokens : List Token} (h : Leads limit tokens st P) (hle : ∀ st', P st' → Q st') :
    Leads limit tokens st Q := by
  intro text htext cs v hcs hread
  obtain ⟨st', hst', hrest⟩ := h text htext cs v hcs hread
  exact ⟨st', hle st' hst', hrest⟩

theorem token {token : Token} (hP : ∀ st', P st' → Between st')
    (h : ∀ cs v, Bounded cs → outcome limit st (token ++ cs) = .ok v →
      ∃ st', P st' ∧ outcome limit st' cs = .ok v) : Leads limit [token] st P := by
  rintro text htext cs v hcs hread
  cases htext with
  | cons _ hblank htext =>
    cases htext
    rw [List.append_nil, List.append_assoc] at hread
    obtain ⟨st', hst', hrest⟩ := h _ v (hcs.blank hblank) hread
    rw [(hP st' hst').outcome_blank hblank] at hrest
    exact ⟨st', hst', hrest⟩

/-- A token that shows where it ends, and other tokens. -/
theorem cons {token : Token} {tokens : List Token} (hP : ∀ st', P st' → Between st')
    (h : ∀ cs v, outcome limit st (token ++ cs) = .ok v →
      ∃ st', P st' ∧ outcome limit st' cs = .ok v)
    (hrest : ∀ st', P st' → Leads limit tokens st' Q) : Leads limit (token :: tokens) st Q := by
  rintro text htext cs v hcs hread
  cases htext with
  | cons _ hblank htext =>
    rw [List.append_assoc, List.append_assoc] at hread
    obtain ⟨st', hst', hread⟩ := h _ v hread
    rw [(hP st' hst').outcome_blank hblank] at hread
    exact hrest st' hst' _ htext cs v hcs hread

theorem mark {c : Char} {tokens : List Token} (hP : ∀ st', P st' → Between st')
    (h : ∀ st', step limit st c = .ok st' → P st')
    (hrest : ∀ st', P st' → Leads limit tokens st' Q) : Leads limit ([c] :: tokens) st Q := by
  refine .cons hP (fun cs v hread => ?_) hrest
  obtain ⟨st', hstep, hread⟩ := step_of_outcome hread
  exact ⟨st', h st' hstep, hread⟩

theorem lastMark {c : Char} (hP : ∀ st', P st' → Between st')
    (h : ∀ st', step limit st c = .ok st' → P st') : Leads limit [[c]] st P := by
  refine .token hP fun cs v _ hread => ?_
  obtain ⟨st', hstep, hread⟩ := step_of_outcome hread
  exact ⟨st', h st' hstep, hread⟩

theorem append {tokens more : List Token} {c : Char} (hc : Closes c) (h : Leads limit tokens st P)
    (hrest : ∀ st', P st' → Leads limit ([c] :: more) st' Q) :
    Leads limit (tokens ++ [c] :: more) st Q := by
  intro text htext cs v hcs hread
  obtain ⟨front, back, hfront, hback, rfl⟩ := htext.exists_append
  rw [List.append_assoc] at hread
  have hbounded : Bounded (back ++ cs) := by
    cases hback with
    | cons _ _ _ =>
      intro d hd
      rw [List.append_assoc, List.append_assoc, List.singleton_append, List.head?_cons,
        Option.mem_some_iff] at hd
      exact hd ▸ hc
  obtain ⟨st', hst', hread⟩ := h front hfront _ v hbounded hread
  exact hrest st' hst' back hback cs v hcs hread

end Leads

/-! #### Scalars -/

theorem outcome_scans {σ : Type} {next : σ → Char → Except Error (Option σ)} {good : σ → Prop}
    (focus : σ → Focus)
    (hstep : ∀ s c, (∀ s', next s c = .ok (some s') →
      step limit ⟨stack, focus s⟩ c = .ok ⟨stack, focus s'⟩) ∧
      ∀ e, next s c = .error e → step limit ⟨stack, focus s⟩ c = .error e)
    {s : σ} {cs rest : List Char} (h : Scans next good s cs) {v : Value}
    (hread : outcome limit ⟨stack, focus s⟩ (cs ++ rest) = .ok v) :
    ∃ s', scanAll next s cs = some s' ∧ good s' ∧ outcome limit ⟨stack, focus s'⟩ rest = .ok v := by
  induction cs generalizing s with
  | nil => exact ⟨s, rfl, h, hread⟩
  | cons c cs ih =>
    obtain ⟨st', hstep', hread⟩ := step_of_outcome hread
    cases hnext : next s c with
    | error e =>
      rw [(hstep s c).2 e hnext] at hstep'
      contradiction
    | ok r =>
      obtain ⟨s', rfl, hrest⟩ := h r hnext
      rw [(hstep s c).1 s' hnext, Except.ok.injEq] at hstep'
      subst hstep'
      rw [scanAll_cons hnext]
      exact ih hrest hread

/-- The container that a value was handed to, or the result. -/
theorem exists_of_accept {v : Value} {cs : List Char} {w : Value}
    (h : (accept stack shape v).bind (outcome limit · cs) = .ok w) :
    ∃ v', shape.accept v = .ok v' ∧ outcome limit (complete stack v') cs = .ok w := by
  cases haccept : shape.accept v with
  | error e =>
    rw [accept, haccept] at h
    contradiction
  | ok v' =>
    rw [accept_eq haccept] at h
    exact ⟨v', rfl, h⟩

theorem exists_of_quoted (focus : StringScan → Focus) (skim : Bool)
    (hopen : step limit st '"' = .ok ⟨stack, focus .start⟩)
    (hstep : ∀ s c, (∀ s', StringScan.step skim s c = .ok (some s') →
      step limit ⟨stack, focus s⟩ c = .ok ⟨stack, focus s'⟩) ∧
      ∀ e, StringScan.step skim s c = .error e → step limit ⟨stack, focus s⟩ c = .error e)
    {token : Token} (h : IsString token) {cs : List Char} {v : Value}
    (hread : outcome limit st (token ++ cs) = .ok v) :
    ∃ s, scanAll (StringScan.step skim) .start token.tail.dropLast = some s ∧ s.stage = .plain ∧
      outcome limit ⟨stack, focus s⟩ ('"' :: cs) = .ok v := by
  obtain ⟨body, rfl, hscans⟩ := StringScan.scans_of_isString h skim
  rw [List.cons_append, List.cons_append, outcome_cons, hopen, List.append_assoc] at hread
  obtain ⟨s, hscan, hgood, hread⟩ := outcome_scans focus hstep hscans hread
  refine ⟨s, ?_, ?_, hread⟩
  · rw [List.cons_append, List.tail_cons, List.dropLast_concat]
    exact hscan
  · rcases hgood with hplain | ⟨high, hhigh⟩
    · exact hplain
    -- the second half of a pair is missing
    · obtain ⟨st', hstep', -⟩ := step_of_outcome hread
      have hquote : s.step skim '"' = .error .unfinishedSurrogatePair := by
        simp [StringScan.step, hhigh]
      rw [(hstep s '"').2 _ hquote] at hstep'
      contradiction

/-! #### Brackets -/

theorem closes_of_bracket {c : Char} (hc : c = ']' ∨ c = '\x7d') : Closes c :=
  .inr (.inr hc)

/-- Parts in brackets, with the states that come before a part and after it. -/
theorem leads_enclosed {α : Type} {part : α → List Token} {opening closing : Char} {all : List α}
    (next after : List α → State → Prop) (hclosing : closing = ']' ∨ closing = '\x7d')
    (hnext : ∀ xs st', next xs st' → Between st') (hP : ∀ st', P st' → Between st')
    (hopen : ∀ st', step limit st opening = .ok st' → next [] st')
    (hpart : ∀ xs x ys, all = xs ++ x :: ys → ∀ st', next xs st' →
      Leads limit (part x) st' (after (xs ++ [x])))
    (hcomma : ∀ xs st' st'', xs ≠ [] → after xs st' → step limit st' ',' = .ok st'' → next xs st'')
    (hempty : all = [] → ∀ st' st'', next [] st' → step limit st' closing = .ok st'' → P st'')
    (hclose : all ≠ [] → ∀ st' st'', after all st' → step limit st' closing = .ok st'' → P st'') :
    Leads limit (enclosed opening closing (all.map part)) st P := by
  have hbegins (ys : List α) : ∃ c more, Closes c ∧
      (ys.map part).flatMap (fun part => [','] :: part) ++ [[closing]] = [c] :: more := by
    cases ys with
    | nil => exact ⟨closing, [], closes_of_bracket hclosing, rfl⟩
    | cons y ys => exact ⟨',', _, .inr (.inl rfl), rfl⟩
  have hrest (xs ys : List α) (hxs : xs ≠ []) (hall : all = xs ++ ys) (st' : State)
      (hst' : after xs st') :
      Leads limit ((ys.map part).flatMap (fun part => [','] :: part) ++ [[closing]]) st' P := by
    induction ys generalizing xs st' with
    | nil =>
      rw [List.append_nil] at hall
      subst hall
      exact .lastMark hP fun st'' hstep => hclose hxs st' st'' hst' hstep
    | cons y ys ih =>
      have hall' : all = (xs ++ [y]) ++ ys := by rw [hall, List.append_assoc, List.singleton_append]
      obtain ⟨c, more, hc, hmore⟩ := hbegins ys
      have htokens : ((y :: ys).map part).flatMap (fun part => [','] :: part) ++ [[closing]] =
          [','] :: (part y ++ [c] :: more) := by
        rw [List.map_cons, List.flatMap_cons, List.append_assoc, hmore, List.cons_append]
      rw [htokens]
      refine .mark (hnext xs) (fun st'' hstep => hcomma xs st' st'' hxs hst' hstep) fun st'' hst'' => ?_
      refine .append hc (hpart xs y ys hall st'' hst'') fun st₃ hst₃ => ?_
      rw [← hmore]
      exact ih (xs ++ [y]) (by simp) hall' st₃ hst₃
  cases hall : all with
  | nil => exact .mark (hnext []) hopen fun st' hst' => .lastMark hP (hempty hall st' · hst')
  | cons x xs =>
    obtain ⟨c, more, hc, hmore⟩ := hbegins xs
    have htokens : enclosed opening closing ((x :: xs).map part) =
        [opening] :: (part x ++ [c] :: more) := by
      rw [List.map_cons, enclosed, List.append_assoc, hmore, List.cons_append]
    rw [htokens]
    refine .mark (hnext []) hopen fun st' hst' => ?_
    refine .append hc (hpart [] x xs hall st' hst') fun st'' hst'' => ?_
    rw [← hmore]
    exact hrest [x] xs (by simp) hall st'' hst''

theorem exists_enclosed_eq (opening closing : Char) (parts : List (List Token)) :
    ∃ more, enclosed opening closing parts = [opening] :: more := by
  cases parts <;> exact ⟨_, rfl⟩

theorem leads_of_error {c : Char} {e : Error} (h : step limit st c = .error e)
    (closing : Char) (parts : List (List Token)) : Leads limit (enclosed c closing parts) st Q := by
  obtain ⟨more, hmore⟩ := exists_enclosed_eq c closing parts
  rw [hmore]
  refine .mark (P := fun _ => False) (fun _ hfalse => hfalse.elim) (fun st' hstep => ?_)
    fun _ hfalse => hfalse.elim
  rw [h] at hstep
  contradiction

theorem enter_eq_ok {frame : Frame} (h : enter limit stack frame a = .ok st) :
    st = ⟨frame :: stack, .await a⟩ := by
  rw [enter] at h
  split at h
  · contradiction
  · exact (Except.ok.inj h).symm

end Reader

end ScriptFeatures.Json
