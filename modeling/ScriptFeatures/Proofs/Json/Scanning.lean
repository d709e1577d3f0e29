import Mathlib.Tactic.IntervalCases
import ScriptFeatures.Proofs.Decimal.Written
import ScriptFeatures.Proofs.Json.Passing

/-!
Tokens that are read character by character. A name, a string or a number is
passed over when its characters can be scanned (`Reader.passes_string`,
`Reader.passes_number`), and scanning undoes what the printer does: an escaped
text is scanned as the text (`scan_text`) and the digits of an integer as the
integer (`scan_integerText`).
-/

namespace ScriptFeatures.Json

open ScriptFeatures.Decimal

/-- Scans characters none of which ends what is scanned. -/
def scanAll {σ : Type} (step : σ → Char → Except Error (Option σ)) : σ → List Char → Option σ
  | s, [] => some s
  | s, c :: cs =>
    match step s c with
    | .ok (some s) => scanAll step s cs
    | _ => none

section

variable {σ : Type} {step : σ → Char → Except Error (Option σ)} {s s' : σ}

theorem scanAll_cons {c : Char} (h : step s c = .ok (some s')) (cs : List Char) :
    scanAll step s (c :: cs) = scanAll step s' cs := by
  rw [scanAll, h]

theorem scanAll_append {cs : List Char} (h : scanAll step s cs = some s') (more : List Char) :
    scanAll step s (cs ++ more) = scanAll step s' more := by
  induction cs generalizing s with
  | nil => rw [← Option.some.inj h, List.nil_append]
  | cons c cs ih =>
    rw [scanAll] at h
    split at h
    · next hstep =>
      rw [List.cons_append, scanAll_cons hstep]
      exact ih h
    · contradiction

end

/-! ### Escaped texts -/

theorem scan_escapeChar (c : Char) (read : List Char) :
    scanAll (StringScan.step false) ⟨.plain, read⟩ (escapeChar c) = some ⟨.plain, c :: read⟩ := by
  have hcontrol : ∀ n < 0x20, scanAll (StringScan.step false) ⟨.plain, read⟩
      ['\\', 'u', '0', '0', hexDigit (n / 16), hexDigit (n % 16)] =
        some ⟨.plain, Char.ofNat n :: read⟩ := by
    intro n hn
    interval_cases n <;> rfl
  unfold escapeChar
  split
  case h_8 hquote hbackslash _ _ _ _ _ =>
    split
    · next hc =>
      rw [hcontrol c.toNat hc, Char.ofNat_toNat]
    · next hc =>
      have hval : ¬ c.val < 0x20 := fun hlt => hc (UInt32.lt_iff_toNat_lt.mp hlt)
      have hquote' : (c == '"') = false := beq_eq_false_iff_ne.mpr hquote
      have hbackslash' : (c == '\\') = false := beq_eq_false_iff_ne.mpr hbackslash
      have hplain : StringScan.step false ⟨.plain, read⟩ c = .ok (some ⟨.plain, c :: read⟩) := by
        simp only [StringScan.step, hquote', hbackslash', hval, StringScan.push, if_false,
          Bool.false_eq_true]
      exact scanAll_cons hplain []
  all_goals rfl

theorem scan_text (cs read : List Char) :
    scanAll (StringScan.step false) ⟨.plain, read⟩ (cs.flatMap escapeChar) =
      some ⟨.plain, cs.reverse ++ read⟩ := by
  induction cs generalizing read with
  | nil => rfl
  | cons c cs ih =>
    rw [List.flatMap_cons, scanAll_append (scan_escapeChar c read), ih]
    simp

/-! ### Digits -/

theorem exists_decimalDigits_cons {n : ℕ} (hn : 0 < n) :
    ∃ c cs, decimalDigits n = c :: cs ∧ c ≠ '0' := by
  induction n using Nat.strong_induction_on with
  | _ n ih =>
    by_cases hlt : n < 10
    · refine ⟨n.digitChar, [], Nat.toDigits_of_lt_base hlt, ?_⟩
      interval_cases n <;> decide
    · have hlower : 0 < n / 10 := by omega
      obtain ⟨c, cs, hcs, hc⟩ := ih (n / 10) (by omega) hlower
      refine ⟨c, cs ++ [(n % 10).digitChar], ?_, hc⟩
      rw [decimalDigits, Nat.toDigits_of_base_le (by decide) (by omega)]
      rw [decimalDigits] at hcs
      rw [hcs, List.cons_append]

namespace NumberScan

theorem le_ofDigitChars (cs : List Char) (n : ℕ) : n ≤ Nat.ofDigitChars 10 cs n := by
  induction cs generalizing n with
  | nil => simp
  | cons c cs ih =>
    rw [Nat.ofDigitChars_cons]
    exact le_trans (by omega) (ih _)

/-- Digits of the whole part are put behind the significand while it fits. -/
theorem scan_whole {skim : Bool} {n : NumberScan} (hstage : n.stage = .whole) {cs : List Char}
    (hcs : Digits cs) (hfits : Nat.ofDigitChars 10 cs n.significand ≤ maxSignificand) :
    scanAll (step skim) n cs =
      some { n with significand := Nat.ofDigitChars 10 cs n.significand } := by
  induction cs generalizing n with
  | nil => simp [scanAll]
  | cons c cs ih =>
    have hdigit : c.isDigit = true := hcs c List.mem_cons_self
    have hextended : n.extended c = 10 * n.significand + (c.toNat - '0'.toNat) := by
      rw [extended, digitValue, Nat.mul_comm]
    rw [Nat.ofDigitChars_cons, ← hextended] at hfits
    have hle : n.extended c ≤ maxSignificand := le_trans (le_ofDigitChars cs _) hfits
    have hstep : n.step skim c =
        .ok (some { n with stage := .whole, significand := n.extended c }) := by
      simp [step, hstage, hdigit, wholeDigit, hle]
    rw [scanAll_cons hstep, ih rfl (fun d hd => hcs d (List.mem_cons_of_mem c hd)) hfits,
      Nat.ofDigitChars_cons, ← hextended, hstage]

/-- A number that ends in its whole part is the integer of its significand and
its sign, if that fits 64 bits. -/
theorem value_of_whole {n : NumberScan} (hstage : n.stage = .whole) {k : ℤ}
    (hlow : -0x8000000000000000 ≤ k) (hzero : k ≠ 0) (hsign : n.negative = decide (k < 0))
    (habs : n.significand = k.natAbs) : n.isOpen = false ∧ n.value = .ok (.integer k) := by
  have hintegral : n.integral = .integer k := by
    rw [integral, hsign, habs]
    by_cases hneg : k < 0
    · have hfits : 0 < k.natAbs ∧ k.natAbs ≤ 0x8000000000000000 :=
        ⟨Int.natAbs_pos.mpr hzero, by omega⟩
      have hk : -(k.natAbs : ℤ) = k := by omega
      rw [decide_eq_true hneg, if_neg (by simp), if_pos hfits, hk]
    · have hk : (k.natAbs : ℤ) = k := by omega
      rw [decide_eq_false hneg, if_pos (by simp), hk]
  rw [isOpen, value, hstage, hintegral]
  exact ⟨rfl, rfl⟩

end NumberScan

theorem digitValue_bounds {c : Char} (hdigit : c.isDigit = true) (hc : c ≠ '0') :
    0 < digitValue c ∧ digitValue c ≤ 9 := by
  simp only [Char.isDigit, Bool.and_eq_true, decide_eq_true_eq, ge_iff_le,
    UInt32.le_iff_toNat_le] at hdigit
  have hlow : 48 ≤ c.toNat := hdigit.1
  have hhigh : c.toNat ≤ 57 := hdigit.2
  have hne : c.toNat ≠ 48 := fun heq => hc (Char.toNat_inj.mp heq)
  have hzero : '0'.toNat = 48 := rfl
  rw [digitValue, hzero]
  omega

namespace NumberScan

/-- The scan of a number after its first digit, which is not zero. -/
def firstDigit (negative : Bool) (c : Char) : NumberScan :=
  { negative, stage := .whole, significand := digitValue c, scale := 0,
    exponentNegative := false, exponent := 0 }

variable {c : Char} (hdigit : c.isDigit = true) (hc : c ≠ '0')

include hdigit hc in
theorem start_eq_firstDigit : start c = firstDigit false c := by
  have hminus : c ≠ '-' := by
    rintro rfl
    contradiction
  simp [start, hminus, hc, firstDigit]

include hdigit hc in
theorem step_sign (skim : Bool) : (start '-').step skim c = .ok (some (firstDigit true c)) := by
  have hsmall : digitValue c ≤ maxSignificand :=
    Nat.le_trans (digitValue_bounds hdigit hc).2 (by decide)
  simp [start, step, wholeDigit, extended, hc, hdigit, hsmall, firstDigit]

end NumberScan

/-- Scanning the digits of an integer that fits 64 bits, with a sign or
without, gives the integer. -/
theorem scan_integerText {k : ℤ} (hlow : -0x8000000000000000 ≤ k)
    (hhigh : k < 0x10000000000000000) :
    ∃ c cs n, integerText k = c :: cs ∧ (c = '-' ∨ c.isDigit = true) ∧
      scanAll (NumberScan.step false) (.start c) cs = some n ∧ n.isOpen = false ∧
      n.value = .ok (.integer k) := by
  by_cases hzero : k = 0
  · subst hzero
    exact ⟨'0', [], .start '0', rfl, .inr rfl, rfl, rfl, rfl⟩
  obtain ⟨d, ds, hds, hd⟩ := exists_decimalDigits_cons (Int.natAbs_pos.mpr hzero)
  have hdigits := digits_decimalDigits k.natAbs
  rw [hds] at hdigits
  have hdigit : d.isDigit = true := hdigits d List.mem_cons_self
  have hread : Nat.ofDigitChars 10 ds (digitValue d) = k.natAbs := by
    have hall := Nat.ofDigitChars_ten_toDigits (n := k.natAbs)
    rw [decimalDigits] at hds
    rw [hds, Nat.ofDigitChars_cons, Nat.mul_zero, Nat.zero_add] at hall
    exact hall
  have hfits : Nat.ofDigitChars 10 ds (digitValue d) ≤ NumberScan.maxSignificand := by
    rw [hread, NumberScan.maxSignificand]
    omega
  have hscan (negative : Bool) :
      scanAll (NumberScan.step false) (.firstDigit negative d) ds =
        some { NumberScan.firstDigit negative d with significand := k.natAbs } := by
    rw [← hread]
    exact NumberScan.scan_whole rfl (fun c hc => hdigits c (List.mem_cons_of_mem d hc)) hfits
  by_cases hneg : k < 0
  · have hstep := NumberScan.step_sign hdigit hd false
    refine ⟨'-', d :: ds, _, ?_, .inl rfl, (scanAll_cons hstep ds).trans (hscan true), ?_⟩
    · rw [integerText, if_pos hneg, hds]
    · exact NumberScan.value_of_whole rfl hlow hzero (decide_eq_true hneg).symm rfl
  · have hstart := NumberScan.start_eq_firstDigit hdigit hd
    refine ⟨d, ds, _, ?_, .inr hdigit, by rw [hstart]; exact hscan false, ?_⟩
    · rw [integerText, if_neg hneg, hds]
    · exact NumberScan.value_of_whole rfl hlow hzero (decide_eq_false hneg).symm rfl

namespace Reader

section

variable {limit : Option Nat} {stack : List Frame} {a : Await} {shape : Shape}

/-! ### Tokens -/

theorem outcome_scanAll {σ : Type} {next : σ → Char → Except Error (Option σ)} (focus : σ → Focus)
    (hstep : ∀ s c s', next s c = .ok (some s') →
      step limit ⟨stack, focus s⟩ c = .ok ⟨stack, focus s'⟩)
    {s s' : σ} {cs : List Char} (h : scanAll next s cs = some s') (rest : List Char) :
    outcome limit ⟨stack, focus s⟩ (cs ++ rest) = outcome limit ⟨stack, focus s'⟩ rest := by
  induction cs generalizing s with
  | nil => rw [← Option.some.inj h, List.nil_append]
  | cons c cs ih =>
    rw [scanAll] at h
    split at h
    · next hnext =>
      rw [List.cons_append, outcome_cons, hstep _ _ _ hnext]
      exact ih h
    · contradiction

theorem accept_eq {v w : Value} (h : shape.accept v = .ok w) :
    accept stack shape v = .ok (complete stack w) := by
  rw [accept, h]
  rfl

theorem passes_quoted (focus : StringScan → Focus) {skim : Bool} {st st' : State}
    (hopen : step limit st '"' = .ok ⟨stack, focus .start⟩)
    (hstep : ∀ s c s', StringScan.step skim s c = .ok (some s') →
      step limit ⟨stack, focus s⟩ c = .ok ⟨stack, focus s'⟩)
    {body : List Char} {s : StringScan}
    (hscan : scanAll (StringScan.step skim) .start body = some s) (hplain : s.stage = .plain)
    (hclose : s.step skim '"' = .ok none → step limit ⟨stack, focus s⟩ '"' = .ok st')
    (hst' : Between st') : Passes limit ['"' :: body ++ ['"']] st st' := by
  refine .token hst' fun cs v hrest => ?_
  have hquote : s.step skim '"' = .ok none := by
    rw [StringScan.step, hplain]
    rfl
  rw [List.append_assoc, List.cons_append, outcome_cons, hopen]
  change outcome limit _ (body ++ '"' :: cs) = _
  rw [outcome_scanAll focus hstep hscan, outcome_cons, hclose hquote]
  exact hrest

theorem passes_string (h : Takes shape a) {body : List Char} {s : StringScan} {w : Value}
    (hscan : scanAll (StringScan.step shape.isIgnored) .start body = some s)
    (hplain : s.stage = .plain) (haccept : shape.accept (.string s.text) = .ok w) :
    Passes limit ['"' :: body ++ ['"']] ⟨stack, .await a⟩ (complete stack w) := by
  refine passes_quoted (fun s => .scalar shape (.string s)) (h.step_eq rfl (by decide)) ?_ hscan
    hplain ?_ (between_complete _ _)
  · intro s c s' hs
    simp only [step, hs]
  · intro hquote
    simp only [step, hquote]
    exact accept_eq haccept

theorem passes_name {first ignored : Bool} {body : List Char} {s : StringScan} {st : State}
    (hscan : scanAll (StringScan.step ignored) .start body = some s) (hplain : s.stage = .plain)
    (hnamed : named stack s.text = .ok st) (hst : Between st) :
    Passes limit ['"' :: body ++ ['"']] ⟨stack, .await (.name first ignored)⟩ st := by
  refine passes_quoted (fun s => .name ignored s) rfl ?_ hscan hplain ?_ hst
  · intro s c s' hs
    simp only [step, hs]
  · intro hquote
    simp only [step, hquote]
    exact hnamed

theorem Takes.step_number (h : Takes shape a) {c : Char} (hc : c = '-' ∨ c.isDigit = true) :
    step limit ⟨stack, .await a⟩ c = .ok ⟨stack, .scalar shape (.number (.start c))⟩ := by
  have hbegin : isSpace c = false ∧ c ≠ ']' ∧ (c == '"') = false ∧
      (c == '-' || c.isDigit) = true := by
    rcases hc with rfl | hdigit
    · exact ⟨rfl, by decide, rfl, rfl⟩
    · have hother {d : Char} (hd : d.isDigit = false) : (c == d) = false := by
        rw [beq_eq_false_iff_ne]
        rintro rfl
        rw [hdigit] at hd
        contradiction
      have hspace : isSpace c = false := by
        simp only [isSpace, hother (d := ' ') rfl, hother (d := '\t') rfl,
          hother (d := '\n') rfl, hother (d := '\r') rfl, Bool.or_self]
      exact ⟨hspace, beq_eq_false_iff_ne.mp (hother rfl), hother rfl, by simp [hdigit]⟩
  obtain ⟨hspace, hbracket, hquote, hnumber⟩ := hbegin
  rw [h.step_eq hspace hbracket, begin]
  simp only [hquote, hnumber, Bool.false_eq_true, if_false, if_true]

theorem passes_number (h : Takes shape a) {c : Char} {cs : List Char} {n : NumberScan}
    {number : Number} {w : Value} (hc : c = '-' ∨ c.isDigit = true)
    (hscan : scanAll (NumberScan.step shape.isIgnored) (.start c) cs = some n)
    (hclosed : n.isOpen = false) (hfinish : n.finish shape.isIgnored = .ok number)
    (haccept : shape.accept (.number number) = .ok w) :
    Passes limit [c :: cs] ⟨stack, .await a⟩ (complete stack w) := by
  refine .token (between_complete _ _) fun rest v hrest => ?_
  have hstep : ∀ n c n', NumberScan.step shape.isIgnored n c = .ok (some n') →
      step limit ⟨stack, .scalar shape (.number n)⟩ c =
        .ok ⟨stack, .scalar shape (.number n')⟩ := by
    intro n c n' hn
    simp only [step, hn]
  rw [List.cons_append, outcome_cons, h.step_number hc]
  change outcome limit _ (cs ++ rest) = _
  rw [outcome_scanAll (fun n => .scalar shape (.number n)) hstep hscan]
  exact outcome_of_number rfl hclosed hfinish (accept_eq haccept) hrest

theorem outcome_word (h : Takes shape a) {c : Char} {letters : List Char} {v : Value}
    (hspace : isSpace c = false) (hc : c ≠ ']')
    (hbegin : begin limit stack shape c = .ok ⟨stack, .scalar shape (.word letters v)⟩)
    (hletters : letters ≠ []) (cs : List Char) :
    outcome limit ⟨stack, .await a⟩ (c :: letters ++ cs) =
      (accept stack shape v).bind (outcome limit · cs) := by
  rw [List.cons_append, outcome_cons, h.step_eq hspace hc, hbegin]
  change outcome limit _ (letters ++ cs) = _
  clear hbegin
  induction letters with
  | nil => contradiction
  | cons d letters ih =>
    rw [List.cons_append, outcome_cons]
    cases letters with
    | nil =>
      have hstep : step limit ⟨stack, .scalar shape (.word [d] v)⟩ d = accept stack shape v := by
        simp only [step, beq_self_eq_true, if_true]
      rw [hstep]
      rfl
    | cons e letters =>
      have hstep : step limit ⟨stack, .scalar shape (.word (d :: e :: letters) v)⟩ d =
          .ok ⟨stack, .scalar shape (.word (e :: letters) v)⟩ := by
        simp only [step, beq_self_eq_true, if_true]
      rw [hstep]
      exact ih (by simp)

theorem passes_word (h : Takes shape a) {c : Char} {letters : List Char} {v w : Value}
    (hspace : isSpace c = false) (hc : c ≠ ']')
    (hbegin : begin limit stack shape c = .ok ⟨stack, .scalar shape (.word letters v)⟩)
    (hletters : letters ≠ []) (haccept : shape.accept v = .ok w) :
    Passes limit [c :: letters] ⟨stack, .await a⟩ (complete stack w) := by
  refine .token (between_complete _ _) fun rest u hrest => ?_
  rw [outcome_word h hspace hc hbegin hletters, accept_eq haccept]
  exact hrest

end

end Reader

end ScriptFeatures.Json
