import ScriptFeatures.Proofs.Json.ParseTree

/-!
Numbers that are written as integers. Digits are collected while they fit 64
bits, and a number with more of them becomes a double, as does a negative one
below the range of a sign and 63 bits, and minus zero. So a number that is kept
as an integer with a sign is the integer of its digits, and no other one is
kept (`signed?_of_isInteger`).
-/

namespace ScriptFeatures.Json

open ScriptFeatures.Decimal

/-- A number without fraction and exponent, and the integer that its digits
stand for. -/
inductive IsInteger : Token → ℤ → Prop
  | unsigned {digits : List Char} (h : IsWhole digits) :
      IsInteger digits (Nat.ofDigitChars 10 digits 0)
  | negative {digits : List Char} (h : IsWhole digits) :
      IsInteger ('-' :: digits) (-(Nat.ofDigitChars 10 digits 0 : ℤ))

theorem IsInteger.isNumber {token : Token} {z : ℤ} (h : IsInteger token z) : IsNumber token := by
  cases h with
  | unsigned hwhole =>
    have hnumber : IsNumber ([] ++ (token ++ ([] ++ []))) :=
      .mk (.inl rfl) hwhole (.inl rfl) (.inl rfl)
    simpa only [List.nil_append, List.append_nil] using hnumber
  | @negative digits hwhole =>
    have hnumber : IsNumber (['-'] ++ (digits ++ ([] ++ []))) :=
      .mk (.inr rfl) hwhole (.inl rfl) (.inl rfl)
    simpa only [List.singleton_append, List.append_nil] using hnumber

/-- The integers that are kept as they are written: minus zero is not, nor is
what does not fit a sign and 63 bits. -/
def FitsSigned (token : Token) (z : ℤ) : Prop :=
  -0x8000000000000000 ≤ z ∧ z < 0x8000000000000000 ∧ token ≠ ['-', '0']

instance (token : Token) (z : ℤ) : Decidable (FitsSigned token z) :=
  inferInstanceAs (Decidable (_ ∧ _ ∧ _))

namespace NumberScan

variable {n : NumberScan} {cs : List Char}

theorem scan_droppedWhole (hstage : n.stage = .droppedWhole) (hcs : Digits cs) :
    ∃ n', scanAll (step false) n cs = some n' ∧ n'.negative = n.negative ∧
      n'.stage = .droppedWhole := by
  induction cs generalizing n with
  | nil => exact ⟨n, rfl, rfl, hstage⟩
  | cons c cs ih =>
    have hdigit : c.isDigit = true := hcs c List.mem_cons_self
    have hstep : n.step false c = .ok (some { n with scale := n.scale + 1 }) := by
      simp [step, hstage, hdigit]
    rw [scanAll_cons hstep]
    exact ih hstage fun d hd => hcs d (List.mem_cons_of_mem c hd)

/-- Digits of the whole part either all fit the significand, or some are
dropped since their number is too large. -/
theorem scan_digits (hstage : n.stage = .whole) (hcs : Digits cs)
    (hfits : n.significand ≤ maxSignificand) :
    ∃ n', scanAll (step false) n cs = some n' ∧ n'.negative = n.negative ∧
      (n'.stage = .whole ∧ n'.significand = Nat.ofDigitChars 10 cs n.significand ∨
        n'.stage = .droppedWhole ∧ maxSignificand < Nat.ofDigitChars 10 cs n.significand) := by
  induction cs generalizing n with
  | nil => exact ⟨n, rfl, rfl, .inl ⟨hstage, by simp⟩⟩
  | cons c cs ih =>
    have hdigit : c.isDigit = true := hcs c List.mem_cons_self
    have hrest : Digits cs := fun d hd => hcs d (List.mem_cons_of_mem c hd)
    have hextended : n.extended c = 10 * n.significand + (c.toNat - '0'.toNat) := by
      rw [extended, digitValue, Nat.mul_comm]
    have hstep : n.step false c = .ok (some (n.wholeDigit c)) := by
      simp [step, hstage, hdigit]
    rw [scanAll_cons hstep, Nat.ofDigitChars_cons, ← hextended, wholeDigit]
    by_cases hnext : n.extended c ≤ maxSignificand
    · rw [if_pos hnext]
      exact ih rfl hrest hnext
    · rw [if_neg hnext]
      obtain ⟨n', hscan, hnegative, hdropped⟩ :=
        @scan_droppedWhole { n with stage := .droppedWhole, scale := n.scale + 1 } cs rfl hrest
      refine ⟨n', hscan, hnegative, .inr ⟨hdropped, ?_⟩⟩
      exact Nat.lt_of_lt_of_le (Nat.lt_of_not_le hnext) (le_ofDigitChars cs _)

theorem signed?_of_dropped (hstage : n.stage = .droppedWhole) {number : Number}
    (h : n.value = .ok number) : number.signed? = none := by
  rw [value, hstage] at h
  cases hscaled : scaled n.significand
      (n.scale + if n.exponentNegative then -(n.exponent : Int) else n.exponent) with
  | error e =>
    simp only [fractional, hscaled] at h
    contradiction
  | ok x =>
    simp only [fractional, hscaled] at h
    rw [← Except.ok.inj h]
    rfl

theorem signed?_integral (hpos : 0 < n.significand) :
    n.integral.signed? =
      if n.negative then
        if n.significand ≤ 0x8000000000000000 then some (-(n.significand : ℤ)) else none
      else if n.significand < 0x8000000000000000 then some (n.significand : ℤ) else none := by
  rw [integral]
  cases n.negative with
  | false =>
    have hcast : (n.significand : ℤ) < 0x8000000000000000 ↔ n.significand < 0x8000000000000000 := by
      omega
    simp [Number.signed?, hcast]
  | true =>
    by_cases hfits : n.significand ≤ 0x8000000000000000
    · have hsmall : -(n.significand : ℤ) < 0x8000000000000000 := by omega
      simp [Number.signed?, hpos, hfits, hsmall]
    · simp [Number.signed?, hfits, signed]

/-- What is kept of a sign and digits of which the first is not zero. -/
theorem signed?_of_digits {negative : Bool} {c : Char} (hc : c ≠ '0') (hcs : Digits (c :: cs))
    {number : Number}
    (h : (scanAll (step false) (firstDigit negative c) cs).bind (·.value.toOption) = some number) :
    number.signed? =
      if negative then
        if Nat.ofDigitChars 10 (c :: cs) 0 ≤ 0x8000000000000000 then
          some (-(Nat.ofDigitChars 10 (c :: cs) 0 : ℤ)) else none
      else if Nat.ofDigitChars 10 (c :: cs) 0 < 0x8000000000000000 then
        some (Nat.ofDigitChars 10 (c :: cs) 0 : ℤ) else none := by
  obtain ⟨hpos, hsmall⟩ := digitValue_bounds (hcs c List.mem_cons_self) hc
  have hrest : Digits cs := fun d hd => hcs d (List.mem_cons_of_mem c hd)
  have hvalue : Nat.ofDigitChars 10 (c :: cs) 0 = Nat.ofDigitChars 10 cs (digitValue c) := by
    rw [Nat.ofDigitChars_cons, Nat.mul_zero, Nat.zero_add]
    rfl
  have hfits : (firstDigit negative c).significand ≤ maxSignificand :=
    Nat.le_trans hsmall (by decide)
  obtain ⟨n, hscan, hnegative, hn⟩ := scan_digits (n := firstDigit negative c) rfl hrest hfits
  have hsignificand : (firstDigit negative c).significand = digitValue c := rfl
  have hsign : (firstDigit negative c).negative = negative := rfl
  rw [hsign] at hnegative
  rw [hsignificand, ← hvalue] at hn
  rw [hscan, Option.bind_some] at h
  have hok : n.value = .ok number := by
    cases hvalue : n.value with
    | error e =>
      rw [hvalue] at h
      contradiction
    | ok number' =>
      rw [hvalue] at h
      rw [Option.some.inj h]
  rcases hn with ⟨hstage, hwhole⟩ | ⟨hstage, hlarge⟩
  · have hintegral : number = n.integral := by
      rw [value, hstage] at hok
      exact (Except.ok.inj hok).symm
    have hbelow := le_ofDigitChars cs (digitValue c)
    rw [← hvalue, ← hwhole] at hbelow
    rw [hintegral, signed?_integral (Nat.lt_of_lt_of_le hpos hbelow), hnegative, hwhole]
  · rw [maxSignificand] at hlarge
    rw [signed?_of_dropped hstage hok]
    cases negative with
    | false => rw [if_neg Bool.false_ne_true, if_neg (by omega)]
    | true => rw [if_pos rfl, if_neg (by omega)]

end NumberScan

/-- A number that is written as an integer is kept as that integer if it fits,
and as no integer otherwise. -/
theorem signed?_of_isInteger {token : Token} {z : ℤ} (h : IsInteger token z) {number : Number}
    (hnumber : numberOf? token = some number) :
    (FitsSigned token z → number.signed? = some z) ∧
      (¬ FitsSigned token z → number.signed? = none) := by
  cases h with
  | unsigned hwhole =>
    rcases hwhole with rfl | ⟨c, cs, rfl, hc, hcs⟩
    · have hzero : number = .integer 0 := (Option.some.inj hnumber).symm
      subst hzero
      exact ⟨fun _ => rfl, fun hfits => absurd ⟨by decide, by decide, by decide⟩ hfits⟩
    · have hdigit : c.isDigit = true := hcs c List.mem_cons_self
      rw [numberOf?, NumberScan.start_eq_firstDigit hdigit hc] at hnumber
      have hkept := NumberScan.signed?_of_digits hc hcs hnumber
      rw [if_neg Bool.false_ne_true] at hkept
      rw [hkept]
      refine ⟨fun hfits => ?_, fun hfits => if_neg fun hlt => hfits ⟨by omega, by omega, ?_⟩⟩
      · obtain ⟨-, hhigh, -⟩ := hfits
        exact if_pos (by omega)
      · intro heq
        rw [(List.cons.inj heq).1] at hdigit
        contradiction
  | negative hwhole =>
    rcases hwhole with rfl | ⟨c, cs, rfl, hc, hcs⟩
    · have hdouble : number.signed? = none := by
        rw [← Option.some.inj hnumber]
        rfl
      exact ⟨fun hfits => absurd rfl hfits.2.2, fun _ => hdouble⟩
    · have hdigit : c.isDigit = true := hcs c List.mem_cons_self
      rw [numberOf?, scanAll_cons (NumberScan.step_sign hdigit hc false)] at hnumber
      have hkept := NumberScan.signed?_of_digits hc hcs hnumber
      rw [if_pos rfl] at hkept
      rw [hkept]
      refine ⟨fun hfits => ?_, fun hfits => if_neg fun hle => hfits ⟨by omega, by omega, ?_⟩⟩
      · obtain ⟨hlow, -, -⟩ := hfits
        exact if_pos (by omega)
      · exact fun heq => hc (List.cons.inj (List.cons.inj heq).2).1

end ScriptFeatures.Json
