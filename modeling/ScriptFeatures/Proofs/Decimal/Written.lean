import Mathlib.Data.List.TakeWhile
import ScriptFeatures.Decimal.Layout
import ScriptFeatures.Proofs.Decimal.Identified

/-!
What a written number says. A text of digits, with or without a point and an
exponent, is read as a rational (`readNumeral`), and the text of a decimal reads
as the decimal, whatever the decisions of the layout are (`readNumeral_magnitude`).
Since the shortest decimal identifies a number and the sign stands in front,
different finite numbers have different texts (`Layout.text_inj`).
-/

namespace ScriptFeatures.Decimal

/-! ### Digits -/

theorem isDigit_of_mem_decimalDigits {n : ℕ} {c : Char} (h : c ∈ decimalDigits n) :
    c.isDigit = true :=
  Nat.isDigit_of_mem_toDigits (by decide) (by decide) h

theorem decimalDigits_ne_nil (n : ℕ) : decimalDigits n ≠ [] := Nat.toDigits_ne_nil

theorem decimalDigits_inj {m n : ℕ} (h : decimalDigits m = decimalDigits n) : m = n := by
  have hread := congrArg (Nat.ofDigitChars 10 · 0) h
  simpa only [decimalDigits, Nat.ofDigitChars_ten_toDigits] using hread

/-- Only digits, so neither a point nor an exponent mark nor a sign. -/
def Digits (cs : List Char) : Prop := ∀ c ∈ cs, c.isDigit = true

theorem digits_decimalDigits (n : ℕ) : Digits (decimalDigits n) :=
  fun _ => isDigit_of_mem_decimalDigits

theorem Digits.append {cs cs' : List Char} (h : Digits cs) (h' : Digits cs') :
    Digits (cs ++ cs') := by
  intro c hc
  rcases List.mem_append.mp hc with hc | hc
  · exact h c hc
  · exact h' c hc

theorem Digits.subset {cs cs' : List Char} (h : Digits cs') (hsub : cs ⊆ cs') : Digits cs :=
  fun _ hc => h _ (hsub hc)

theorem digits_replicate (k : ℕ) : Digits (List.replicate k '0') := by
  intro c hc
  rw [List.eq_of_mem_replicate hc]
  rfl

theorem Digits.ne {cs : List Char} (h : Digits cs) {c d : Char} (hc : c ∈ cs)
    (hd : d.isDigit = false) : c ≠ d := by
  rintro rfl
  rw [h c hc] at hd
  contradiction

/-! ### Reading -/

/-- The rational that digits with or without a point stand for. -/
def readPointed (cs : List Char) : ℚ :=
  Nat.ofDigitChars 10 (cs.filter (· != '.')) 0 / 10 ^ (cs.dropWhile (· != '.')).tail.length

/-- The rational that a text stands for, with an exponent or without. -/
def readNumeral (cs : List Char) : ℚ :=
  match cs.dropWhile (· != 'e') with
  | _ :: sign :: power =>
    readPointed (cs.takeWhile (· != 'e')) *
      10 ^ (if sign = '-' then -(Nat.ofDigitChars 10 power 0 : ℤ) else Nat.ofDigitChars 10 power 0)
  | _ => readPointed cs

theorem filter_digits {cs : List Char} (h : Digits cs) : cs.filter (· != '.') = cs :=
  List.filter_eq_self.mpr fun _ hc => bne_iff_ne.mpr (h.ne hc rfl)

theorem readPointed_digits {cs : List Char} (h : Digits cs) :
    readPointed cs = Nat.ofDigitChars 10 cs 0 := by
  have hdrop : cs.dropWhile (· != '.') = [] :=
    List.dropWhile_eq_nil_iff.mpr fun _ hc => bne_iff_ne.mpr (h.ne hc rfl)
  rw [readPointed, filter_digits h, hdrop, List.tail_nil, List.length_nil, pow_zero, div_one]

theorem readPointed_point {whole fraction : List Char} (hwhole : Digits whole)
    (hfraction : Digits fraction) :
    readPointed (whole ++ '.' :: fraction) =
      Nat.ofDigitChars 10 (whole ++ fraction) 0 / 10 ^ fraction.length := by
  have hdrop : (whole ++ '.' :: fraction).dropWhile (· != '.') = '.' :: fraction := by
    rw [List.dropWhile_append_of_pos fun _ hc => bne_iff_ne.mpr (hwhole.ne hc rfl)]
    rfl
  have hfilter : (whole ++ '.' :: fraction).filter (· != '.') = whole ++ fraction := by
    rw [List.filter_append, filter_digits hwhole, List.filter_cons_of_neg (by decide),
      filter_digits hfraction]
  rw [readPointed, hdrop, hfilter, List.tail_cons]

theorem readPointed_layout (l : Layout) {digits : List Char} (h : Digits digits)
    (whole : ℤ) :
    readPointed (l.point digits whole) =
      Nat.ofDigitChars 10 digits 0 * (10 : ℚ) ^ (whole - digits.length) := by
  rw [Layout.point]
  -- the point stands in front of the digits, behind them or between them
  split
  · next hneg =>
    have hzeros := digits_replicate (-whole).toNat
    have hread := readPointed_point (digits_replicate 1) (hzeros.append h)
    have hpower : whole - digits.length = -((-whole).toNat + digits.length : ℕ) := by omega
    rw [hpower, zpow_neg, zpow_natCast, ← div_eq_mul_inv]
    simpa [Nat.ofDigitChars_append, Nat.ofDigitChars_replicate_zero, Nat.ofDigitChars_cons]
      using hread
  · split
    · next hwhole =>
      have hpadded := h.append (digits_replicate (whole.toNat - digits.length))
      have hpower : whole - digits.length = (whole.toNat - digits.length : ℕ) := by omega
      have hvalue : Nat.ofDigitChars 10
          (digits ++ List.replicate (whole.toNat - digits.length) '0') 0 =
          10 ^ (whole.toNat - digits.length) * Nat.ofDigitChars 10 digits 0 := by
        rw [Nat.ofDigitChars_append, Nat.ofDigitChars_replicate_zero]
      rw [hpower, zpow_natCast]
      split
      · rw [readPointed_point hpadded (by simp [Digits]), Nat.ofDigitChars_append, hvalue]
        simp [Nat.ofDigitChars_cons, mul_comm]
      · rw [List.append_nil, readPointed_digits hpadded, hvalue]
        push_cast
        ring
    · next hpos hwhole =>
      have hdigits : digits.take whole.toNat ++ digits.drop whole.toNat = digits :=
        List.take_append_drop ..
      rw [readPointed_point (h.subset (List.take_subset ..)) (h.subset (List.drop_subset ..)),
        hdigits, List.length_drop]
      have hpower : whole - digits.length = -(digits.length - whole.toNat : ℕ) := by omega
      rw [hpower, zpow_neg, zpow_natCast, div_eq_mul_inv]

/-! ### Magnitudes -/

/-- Digits and points, so no exponent mark. -/
def Pointed (cs : List Char) : Prop := ∀ c ∈ cs, c.isDigit = true ∨ c = '.'

theorem Digits.pointed {cs : List Char} (h : Digits cs) : Pointed cs := fun c hc => .inl (h c hc)

theorem Pointed.append {cs cs' : List Char} (h : Pointed cs) (h' : Pointed cs') :
    Pointed (cs ++ cs') := by
  intro c hc
  rcases List.mem_append.mp hc with hc | hc
  · exact h c hc
  · exact h' c hc

theorem Pointed.point {cs : List Char} (h : Pointed cs) : Pointed ('.' :: cs) := by
  intro c hc
  rcases List.mem_cons.mp hc with rfl | hc
  · exact .inr rfl
  · exact h c hc

theorem Pointed.ne {cs : List Char} (h : Pointed cs) {c d : Char} (hc : c ∈ cs)
    (hd : d.isDigit = false) (hpoint : d ≠ '.') : c ≠ d := by
  rintro rfl
  rcases h c hc with hdigit | rfl
  · rw [hdigit] at hd
    contradiction
  · exact hpoint rfl

theorem pointed_layout (l : Layout) {digits : List Char} (h : Digits digits) (whole : ℤ) :
    Pointed (l.point digits whole) := by
  rw [Layout.point]
  split
  · have hrest := (digits_replicate (-whole).toNat).append h
    exact (digits_replicate 1).pointed.append hrest.pointed.point
  · split
    · refine (h.append (digits_replicate _)).pointed.append ?_
      split
      · exact (digits_replicate 1).pointed.point
      · exact fun c hc => nomatch hc
    · exact (h.subset (List.take_subset ..)).pointed.append
        (h.subset (List.drop_subset ..)).pointed.point

theorem readNumeral_pointed {cs : List Char} (h : Pointed cs) :
    readNumeral cs = readPointed cs := by
  have hdrop : cs.dropWhile (· != 'e') = [] :=
    List.dropWhile_eq_nil_iff.mpr fun _ hc => bne_iff_ne.mpr (h.ne hc rfl (by decide))
  rw [readNumeral, hdrop]

theorem readNumeral_exponent {cs : List Char} (h : Pointed cs) (power : ℤ) :
    readNumeral (cs ++ 'e' :: (if power < 0 then '-' else '+') :: decimalDigits power.natAbs) =
      readPointed cs * 10 ^ power := by
  have hclear : ∀ c ∈ cs, (c != 'e') = true := fun _ hc =>
    bne_iff_ne.mpr (h.ne hc rfl (by decide))
  have hdrop : ∀ rest : List Char,
      (cs ++ 'e' :: rest).dropWhile (· != 'e') = 'e' :: rest := fun rest => by
    rw [List.dropWhile_append_of_pos hclear]
    rfl
  have htake : ∀ rest : List Char, (cs ++ 'e' :: rest).takeWhile (· != 'e') = cs := fun rest => by
    rw [List.takeWhile_append_of_pos hclear]
    simp
  have hpower : (if (if power < 0 then '-' else '+') = '-' then -(power.natAbs : ℤ)
      else power.natAbs) = power := by
    by_cases hneg : power < 0
    · rw [if_pos hneg, if_pos rfl]
      omega
    · rw [if_neg hneg, if_neg (by decide)]
      omega
  rw [readNumeral, hdrop]
  simp only [htake, decimalDigits, Nat.ofDigitChars_ten_toDigits, hpower]

theorem readNumeral_scientific {digits : List Char} (h : Digits digits) (hnil : digits ≠ [])
    (power : ℤ) :
    readNumeral (scientific digits power) =
      Nat.ofDigitChars 10 digits 0 * (10 : ℚ) ^ (power + 1 - digits.length) := by
  obtain ⟨first, rest, rfl⟩ := List.exists_cons_of_ne_nil hnil
  have hfirst : Digits [first] := h.subset (List.take_subset 1 (first :: rest))
  have hrest : Digits rest := h.subset (List.subset_cons_self first rest)
  have hpower : power + 1 - (first :: rest).length = power - rest.length := by
    rw [List.length_cons]
    omega
  rw [scientific, hpower]
  simp only [List.take_succ_cons, List.take_zero, List.drop_succ_cons, List.drop_zero]
  split
  · rw [readNumeral_exponent (hfirst.pointed.append hrest.pointed.point),
      readPointed_point hfirst hrest, List.singleton_append, zpow_sub₀ (by norm_num),
      zpow_natCast]
    ring
  · next hlength =>
    obtain rfl : rest = [] := by simpa using hlength
    rw [List.append_nil, readNumeral_exponent hfirst.pointed, readPointed_digits hfirst]
    simp

/-- What the text of a number is made of. -/
def IsNumeral (c : Char) : Prop := c.isDigit = true ∨ c ∈ ['.', 'e', '+', '-']

theorem Pointed.isNumeral {cs : List Char} (h : Pointed cs) {c : Char} (hc : c ∈ cs) :
    IsNumeral c := by
  rcases h c hc with hdigit | rfl
  · exact .inl hdigit
  · exact .inr (by decide)

theorem isNumeral_of_mem_scientific {digits : List Char} (h : Digits digits) {power : ℤ}
    {c : Char} (hc : c ∈ scientific digits power) : IsNumeral c := by
  have hfirst := (h.subset (List.take_subset 1 digits)).pointed
  have hrest := (h.subset (List.drop_subset 1 digits)).pointed.point
  rw [scientific] at hc
  rcases List.mem_append.mp hc with hmantissa | hexponent
  · split at hmantissa
    · exact (hfirst.append hrest).isNumeral hmantissa
    · exact hfirst.isNumeral (by simpa using hmantissa)
  · rcases List.mem_cons.mp hexponent with rfl | hsigned
    · exact .inr (by decide)
    · rcases List.mem_cons.mp hsigned with rfl | hpower
      · split <;> exact .inr (by decide)
      · exact .inl (isDigit_of_mem_decimalDigits hpower)

/-- The text of a decimal says which number it is. -/
theorem readNumeral_magnitude (l : Layout) (d : Scientific) :
    readNumeral (l.magnitude d) = d.value := by
  have hdigits := digits_decimalDigits d.digits
  have hread : ∀ power : ℤ, power = d.exponent + (decimalDigits d.digits).length - 1 →
      Nat.ofDigitChars 10 (decimalDigits d.digits) 0 *
        (10 : ℚ) ^ (power + 1 - (decimalDigits d.digits).length) = d.value := by
    rintro _ rfl
    rw [Scientific.value, decimalDigits, Nat.ofDigitChars_ten_toDigits]
    congr 2
    omega
  have hpoint : ∀ power : ℤ, power = d.exponent + (decimalDigits d.digits).length - 1 →
      readNumeral (l.point (decimalDigits d.digits) (power + 1)) = d.value := fun power h => by
    rw [readNumeral_pointed (pointed_layout l hdigits _), readPointed_layout l hdigits, hread _ h]
  simp only [Layout.magnitude]
  split
  · split
    · exact hpoint _ rfl
    · rw [readNumeral_scientific hdigits (decimalDigits_ne_nil _), hread _ rfl]
  · exact hpoint _ rfl

/-! ### Texts of numbers -/

theorem exists_digit_cons_point (l : Layout) {digits : List Char} (h : Digits digits)
    (hnil : digits ≠ []) (whole : ℤ) :
    ∃ c cs, l.point digits whole = c :: cs ∧ c.isDigit = true := by
  obtain ⟨first, rest, rfl⟩ := List.exists_cons_of_ne_nil hnil
  have hfirst : first.isDigit = true := h _ List.mem_cons_self
  rw [Layout.point]
  split
  · exact ⟨_, _, rfl, rfl⟩
  · split
    · exact ⟨_, _, rfl, hfirst⟩
    · obtain ⟨k, hk⟩ : ∃ k, whole.toNat = k + 1 := ⟨whole.toNat - 1, by omega⟩
      exact ⟨_, _, by rw [hk]; rfl, hfirst⟩

theorem exists_digit_cons_magnitude (l : Layout) (d : Scientific) :
    ∃ c cs, l.magnitude d = c :: cs ∧ c.isDigit = true := by
  have hdigits := digits_decimalDigits d.digits
  have hnil := decimalDigits_ne_nil d.digits
  simp only [Layout.magnitude]
  split
  · split
    · exact exists_digit_cons_point l hdigits hnil _
    · obtain ⟨first, rest, hcons⟩ := List.exists_cons_of_ne_nil hnil
      rw [hcons]
      exact ⟨first, _, rfl, hdigits first (hcons ▸ List.mem_cons_self)⟩
  · exact exists_digit_cons_point l hdigits hnil _

theorem Binary64.word_of_isZero {x : Binary64} (h : x.isZero = true) : x.word = 0 := by
  obtain ⟨hexponent, hfraction⟩ : x.exponentField = 0 ∧ x.fractionField = 0 := by
    simpa [isZero] using h
  rw [word, hexponent, hfraction, Nat.zero_mul]

namespace Layout

/-- The decimal whose digits stand for the magnitude of a finite number. -/
def shown (l : Layout) (x : Binary64) : Scientific :=
  if x.isZero then ⟨0, 0⟩ else shortest l.tie x

theorem text_of_isFinite (l : Layout) {x : Binary64} (hx : x.isFinite = true) :
    l.text x = (if x.negative then ['-'] else []) ++ l.magnitude (l.shown x) := by
  have hnan : x.isNaN = false := by
    have hfield : x.exponentField ≠ 2047 := by simpa [Binary64.isFinite] using hx
    simp [Binary64.isNaN, hfield]
  rw [text, shown, hnan, hx]
  cases x.isZero <;> rfl

theorem signed_inj (l : Layout) {s t : Bool} {d e : Scientific}
    (h : (if s then ['-'] else []) ++ l.magnitude d = (if t then ['-'] else []) ++ l.magnitude e) :
    s = t ∧ l.magnitude d = l.magnitude e := by
  obtain ⟨c, cs, hd, hc⟩ := exists_digit_cons_magnitude l d
  obtain ⟨c', cs', he, hc'⟩ := exists_digit_cons_magnitude l e
  cases s <;> cases t
  · exact ⟨rfl, h⟩
  · obtain rfl : c = '-' := by simpa [hd] using congrArg List.head? h
    contradiction
  · obtain rfl : '-' = c' := by simpa [he] using congrArg List.head? h
    contradiction
  · exact ⟨rfl, by simpa using h⟩

theorem text_inj (l : Layout) {x y : Binary64} (hx : x.isFinite = true) (hy : y.isFinite = true)
    (h : l.text x = l.text y) : x = y := by
  rw [l.text_of_isFinite hx, l.text_of_isFinite hy] at h
  obtain ⟨hsign, hmagnitude⟩ := l.signed_inj h
  have hvalue : (l.shown x).value = (l.shown y).value := by
    rw [← readNumeral_magnitude l, ← readNumeral_magnitude l, hmagnitude]
  refine Binary64.eq_of_word_eq ?_ hsign
  rw [shown, shown] at hvalue
  have hzero : Scientific.value ⟨0, 0⟩ = 0 := by simp [Scientific.value]
  cases hxzero : x.isZero <;> cases hyzero : y.isZero <;>
    simp only [hxzero, hyzero, if_true, if_false, Bool.false_eq_true, hzero] at hvalue
  · exact word_eq_of_shortest hxzero hyzero hvalue
  · exact absurd hvalue (shortest_value_pos hxzero l.tie).ne'
  · exact absurd hvalue (shortest_value_pos hyzero l.tie).ne
  · rw [Binary64.word_of_isZero hxzero, Binary64.word_of_isZero hyzero]

/-! ### Characters of numbers -/

theorem isNumeral_of_mem_magnitude (l : Layout) (d : Scientific) {c : Char}
    (h : c ∈ l.magnitude d) : IsNumeral c := by
  have hdigits := digits_decimalDigits d.digits
  have hpoint : ∀ whole, c ∈ l.point (decimalDigits d.digits) whole → IsNumeral c :=
    fun whole hc => (pointed_layout l hdigits whole).isNumeral hc
  simp only [magnitude] at h
  split at h
  · split at h
    · exact hpoint _ h
    · exact isNumeral_of_mem_scientific hdigits h
  · exact hpoint _ h

/-- The text of a finite number has no tab, no line break and no letter but the
exponent mark. -/
theorem isNumeral_of_mem_text (l : Layout) {x : Binary64} (hx : x.isFinite = true) {c : Char}
    (h : c ∈ l.text x) : IsNumeral c := by
  rw [l.text_of_isFinite hx] at h
  rcases List.mem_append.mp h with hsign | hmagnitude
  · split at hsign
    · exact .inr (by simp_all)
    · contradiction
  · exact isNumeral_of_mem_magnitude l _ hmagnitude

end Layout

end ScriptFeatures.Decimal
