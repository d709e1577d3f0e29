import Mathlib.Algebra.Order.Field.Basic
import Mathlib.Data.Rat.Cast.Order
import Mathlib.Tactic.FieldSimp
import Mathlib.Tactic.Linarith
import Mathlib.Tactic.Ring
import ScriptFeatures.Decimal.Shortest

/-!
The shortest decimal of a number identifies it. Comparisons with the bounds of
an interval are made on integers and mean what they say of rationals
(`Interval.contains_iff`), so the decimal found lies among the reals that round
to the number (`mem_shortest`). The intervals of two magnitudes have at most an
end in common, and then not both of them contain it, since the significands of
neighbours are not both even (`eq_of_mem_around`).
-/

namespace ScriptFeatures.Decimal

/-- The rational that a decimal stands for. -/
def Scientific.value (d : Scientific) : ℚ := d.digits * (10 : ℚ) ^ d.exponent

theorem zpow_eq_div {a : ℚ} (ha : a ≠ 0) (z : ℤ) : a ^ z = a ^ z.toNat / a ^ (-z).toNat := by
  rw [← zpow_natCast, ← zpow_natCast, ← zpow_sub₀ ha]
  congr 1
  omega

namespace Interval

/-- The rationals of an interval, its ends included when it is closed. -/
def Mem (i : Interval) (v : ℚ) : Prop :=
  if i.closed then i.low * (2 : ℚ) ^ i.unit ≤ v ∧ v ≤ i.high * (2 : ℚ) ^ i.unit
  else i.low * (2 : ℚ) ^ i.unit < v ∧ v < i.high * (2 : ℚ) ^ i.unit

/-! ### Comparing on integers -/

/-- What a decimal and a bound are both multiplied by to be compared. -/
def scale (i : Interval) (g : ℤ) : ℚ := 10 ^ (-g).toNat * 2 ^ (-i.unit).toNat

theorem scale_pos (i : Interval) (g : ℤ) : 0 < i.scale g := by
  unfold scale
  positivity

theorem value_mul_scale (i : Interval) (d : Scientific) :
    d.value * i.scale d.exponent = (d.digits * i.gridFactor d.exponent : ℕ) := by
  rw [Scientific.value, scale, gridFactor, zpow_eq_div (by norm_num)]
  push_cast [Nat.pow_eq]
  field_simp

theorem bound_mul_scale (i : Interval) (bound : ℕ) (g : ℤ) :
    bound * (2 : ℚ) ^ i.unit * i.scale g = (bound * i.unitFactor g : ℕ) := by
  rw [scale, unitFactor, zpow_eq_div (by norm_num)]
  push_cast [Nat.pow_eq]
  field_simp

theorem bound_le_iff (i : Interval) (bound : ℕ) (d : Scientific) :
    bound * (2 : ℚ) ^ i.unit ≤ d.value ↔
      bound * i.unitFactor d.exponent ≤ d.digits * i.gridFactor d.exponent := by
  rw [← mul_le_mul_iff_left₀ (i.scale_pos d.exponent), value_mul_scale, bound_mul_scale,
    Nat.cast_le]

theorem le_bound_iff (i : Interval) (bound : ℕ) (d : Scientific) :
    d.value ≤ bound * (2 : ℚ) ^ i.unit ↔
      d.digits * i.gridFactor d.exponent ≤ bound * i.unitFactor d.exponent := by
  rw [← mul_le_mul_iff_left₀ (i.scale_pos d.exponent), value_mul_scale, bound_mul_scale,
    Nat.cast_le]

theorem contains_iff (i : Interval) (d : Scientific) : i.contains d = true ↔ i.Mem d.value := by
  rw [contains, Mem]
  cases i.closed with
  | true => simp only [if_true, Bool.and_eq_true, decide_eq_true_eq, bound_le_iff, le_bound_iff]
  | false =>
    simp only [Bool.false_eq_true, if_false, Bool.and_eq_true, decide_eq_true_eq, ← not_le,
      bound_le_iff, le_bound_iff]

/-! ### The search -/

theorem contains_of_nearest? {i : Interval} {tie : Tie} {g : ℤ} {d : Scientific}
    (h : i.nearest? tie g = some d) : i.contains d = true := by
  simp only [nearest?] at h
  split at h
  · next hbelow habove =>
    split at h <;> (cases h; assumption)
  · next hbelow _ => cases h; exact hbelow
  · next _ habove => cases h; exact habove
  · contradiction

theorem contains_of_search {i : Interval} {tie : Tie} {g : ℤ} {fuel : ℕ} {d : Scientific}
    (h : i.search tie g fuel = some d) : i.contains d = true := by
  induction fuel generalizing g with
  | zero => contradiction
  | succ fuel ih =>
    rw [search] at h
    split at h
    · next hnearest =>
      cases h
      exact contains_of_nearest? hnearest
    · exact ih h

end Interval

theorem value_stripZeros (digits : ℕ) (exponent : ℤ) (fuel : ℕ) :
    (stripZeros digits exponent fuel).value = digits * (10 : ℚ) ^ exponent := by
  induction fuel generalizing digits exponent with
  | zero => rfl
  | succ fuel ih =>
    rw [stripZeros]
    split
    · next hzero =>
      have hdigits : (digits : ℚ) = (digits / 10 : ℕ) * 10 := by
        exact_mod_cast (Nat.div_mul_cancel (Nat.dvd_of_mod_eq_zero hzero)).symm
      rw [ih, zpow_add_one₀ (by norm_num)]
      rw [hdigits]
      ring
    · rfl

/-! ### The interval of a number -/

namespace Binary64

theorem fractionField_lt (x : Binary64) : x.fractionField < leadingBit :=
  Nat.mod_lt _ (by decide)

theorem significand_pos {x : Binary64} (h : x.isZero = false) : 0 < x.significand := by
  rw [isZero, Bool.and_eq_false_iff] at h
  rw [significand]
  split
  · next hzero =>
    simp only [hzero, beq_self_eq_true, Bool.true_eq_false, false_or, beq_eq_false_iff_ne] at h
    exact Nat.pos_of_ne_zero h
  · exact Nat.add_pos_left (by decide) _

/-- The exact magnitude of a finite number. -/
def magnitude (x : Binary64) : ℚ := x.significand * (2 : ℚ) ^ x.exponent

end Binary64

theorem mem_magnitude {x : Binary64} (h : x.isZero = false) :
    (Interval.around x).Mem x.magnitude := by
  have hpos := Binary64.significand_pos h
  have hunit : (2 : ℚ) ^ x.exponent = 4 * (2 : ℚ) ^ (x.exponent - 2) := by
    rw [zpow_sub₀ (by norm_num)]
    norm_num
    ring
  have hscale : (0 : ℚ) < 2 ^ (x.exponent - 2) := zpow_pos (by norm_num) _
  have hlow : ((Interval.around x).low : ℚ) < 4 * x.significand := by
    have hnat : (Interval.around x).low < 4 * x.significand := by
      simp only [Interval.around]
      split <;> omega
    exact_mod_cast hnat
  have hmagnitude : x.magnitude = 4 * x.significand * (2 : ℚ) ^ (x.exponent - 2) := by
    rw [Binary64.magnitude, hunit]
    ring
  have hstrict : (Interval.around x).low * (2 : ℚ) ^ (x.exponent - 2) < x.magnitude ∧
      x.magnitude < (Interval.around x).high * (2 : ℚ) ^ (x.exponent - 2) := by
    rw [hmagnitude]
    constructor
    · exact mul_lt_mul_of_pos_right hlow hscale
    · refine mul_lt_mul_of_pos_right ?_ hscale
      simp only [Interval.around]
      push_cast
      linarith
  rw [Interval.Mem]
  split
  · exact ⟨hstrict.1.le, hstrict.2.le⟩
  · exact hstrict

/-- The shortest decimal of a number lies among the reals that round to it. -/
theorem mem_shortest {x : Binary64} (h : x.isZero = false) (tie : Tie) :
    (Interval.around x).Mem (shortest tie x).value := by
  rw [shortest]
  split
  · next d hd =>
    rw [value_stripZeros]
    exact (Interval.contains_iff _ d).mp (Interval.contains_of_search hd)
  · -- the exact value is written in powers of ten
    have hexact : Scientific.value ⟨x.significand * Nat.pow 2 x.exponent.toNat *
        Nat.pow 5 (-x.exponent).toNat, -(-x.exponent).toNat⟩ = x.magnitude := by
      rw [Scientific.value, Binary64.magnitude, zpow_eq_div (by norm_num : (2 : ℚ) ≠ 0),
        zpow_neg, zpow_natCast]
      push_cast [Nat.pow_eq]
      have hten : (10 : ℚ) ^ (-x.exponent).toNat =
          2 ^ (-x.exponent).toNat * 5 ^ (-x.exponent).toNat := by
        rw [← mul_pow]
        norm_num
      rw [hten]
      field_simp
    rw [hexact]
    exact mem_magnitude h

/-! ### Intervals of different numbers -/

namespace Binary64

/-- The bits of a number but for its sign. -/
def word (x : Binary64) : ℕ := x.exponentField * leadingBit + x.fractionField

theorem word_lt_cases {x y : Binary64} (h : x.word < y.word) :
    x.exponent = y.exponent ∧ x.significand < y.significand ∨
      x.exponent < y.exponent ∧ 1 < y.exponentField := by
  have hx := x.fractionField_lt
  have hy := y.fractionField_lt
  simp only [word, exponent, significand, leadingBit] at *
  split <;> split <;> omega

theorem significand_lt (x : Binary64) : x.significand < 2 * leadingBit := by
  have hfraction := x.fractionField_lt
  rw [significand]
  split <;> omega

end Binary64

/-- The gap below a number is four units, and two below a power of two. -/
theorem low_around (x : Binary64) :
    4 * x.significand - 2 ≤ (Interval.around x).low ∧
      (Interval.around x).low ≤ 4 * x.significand - 1 := by
  simp only [Interval.around]
  split <;> omega

theorem low_around_of_normal {x : Binary64} (h : 1 < x.exponentField) :
    4 * Binary64.leadingBit - 1 ≤ (Interval.around x).low := by
  have hsignificand : x.significand = Binary64.leadingBit + x.fractionField :=
    if_neg (by omega)
  simp only [Interval.around, hsignificand, h, decide_true, Bool.and_true, beq_iff_eq]
  split <;> omega

theorem closed_around_of_odd {x : Binary64} (h : x.significand % 2 = 1) :
    (Interval.around x).closed = false := by
  simp [Interval.around, h]

/-- The upper end of the interval of a number is not above the lower end of the
interval of a larger one, in units of the former. If they are equal, one of the
intervals is open. -/
theorem high_le_low {x y : Binary64} (h : x.word < y.word) :
    (Interval.around x).high ≤ (Interval.around y).low * 2 ^ (y.exponent - x.exponent).toNat ∧
      ((Interval.around x).high =
          (Interval.around y).low * 2 ^ (y.exponent - x.exponent).toNat →
        (Interval.around x).closed = false ∨ (Interval.around y).closed = false) := by
  have hhigh : (Interval.around x).high = 4 * x.significand + 2 := rfl
  have hlow := low_around y
  rw [hhigh]
  rcases Binary64.word_lt_cases h with ⟨hexponent, hlt⟩ | ⟨hexponent, hfield⟩
  · -- neighbours of one exponent have significands of different parity
    rw [hexponent, sub_self, Int.toNat_zero, pow_zero, mul_one]
    refine ⟨by omega, fun heq => ?_⟩
    rcases Nat.mod_two_eq_zero_or_one x.significand with heven | hodd
    · exact .inr (closed_around_of_odd (by omega))
    · exact .inl (closed_around_of_odd hodd)
  · -- where the exponent grows, the last significand before is odd
    have hpow : 2 ≤ 2 ^ (y.exponent - x.exponent).toNat := Nat.le_self_pow (by omega) 2
    have hmul := Nat.mul_le_mul (low_around_of_normal hfield) hpow
    have hx := x.significand_lt
    simp only [Binary64.leadingBit] at hmul hx
    exact ⟨by omega, fun heq => .inl (closed_around_of_odd (by omega))⟩

theorem Interval.Mem.le {i : Interval} {v : ℚ} (h : i.Mem v) :
    i.low * (2 : ℚ) ^ i.unit ≤ v ∧ v ≤ i.high * (2 : ℚ) ^ i.unit := by
  rw [Mem] at h
  split at h
  · exact h
  · exact ⟨h.1.le, h.2.le⟩

/-- An interval that contains one of its ends is closed. -/
theorem Interval.Mem.closed {i : Interval} {v : ℚ} (h : i.Mem v)
    (hend : v = i.low * (2 : ℚ) ^ i.unit ∨ v = i.high * (2 : ℚ) ^ i.unit) : i.closed = true := by
  rw [Mem] at h
  split at h
  · assumption
  · rcases hend with rfl | rfl
    · exact absurd h.1 (lt_irrefl _)
    · exact absurd h.2 (lt_irrefl _)

theorem not_mem_of_word_lt {x y : Binary64} (h : x.word < y.word) {v : ℚ}
    (hx : (Interval.around x).Mem v) : ¬ (Interval.around y).Mem v := by
  intro hy
  obtain ⟨hle, hopen⟩ := high_le_low h
  have hunit : (2 : ℚ) ^ (Interval.around y).unit =
      2 ^ (y.exponent - x.exponent).toNat * 2 ^ (Interval.around x).unit := by
    have hnonneg : 0 ≤ y.exponent - x.exponent := by
      rcases Binary64.word_lt_cases h with ⟨heq, -⟩ | ⟨hlt, -⟩ <;> omega
    rw [← zpow_natCast, Int.toNat_of_nonneg hnonneg, ← zpow_add₀ (by norm_num)]
    congr 1
    simp only [Interval.around]
    ring
  have hends : (Interval.around x).high * (2 : ℚ) ^ (Interval.around x).unit ≤
      (Interval.around y).low * (2 : ℚ) ^ (Interval.around y).unit := by
    rw [hunit, ← mul_assoc]
    refine mul_le_mul_of_nonneg_right ?_ (zpow_pos (by norm_num) _).le
    exact_mod_cast hle
  -- the value is squeezed between the ends, so it is both of them
  have hhigh : v = (Interval.around x).high * (2 : ℚ) ^ (Interval.around x).unit :=
    le_antisymm hx.le.2 (hends.trans hy.le.1)
  have hlow : v = (Interval.around y).low * (2 : ℚ) ^ (Interval.around y).unit :=
    le_antisymm (hx.le.2.trans hends) hy.le.1
  have hequal : (Interval.around x).high =
      (Interval.around y).low * 2 ^ (y.exponent - x.exponent).toNat := by
    have hscaled := hhigh.symm.trans hlow
    rw [hunit, ← mul_assoc] at hscaled
    exact_mod_cast mul_right_cancel₀ (zpow_pos (by norm_num) _).ne' hscaled
  rcases hopen hequal with hclosed | hclosed
  · rw [hx.closed (.inr hhigh)] at hclosed
    contradiction
  · rw [hy.closed (.inl hlow)] at hclosed
    contradiction

/-- No rational lies among those that round to a number and among those that
round to one of another magnitude. -/
theorem word_eq_of_mem {x y : Binary64} {v : ℚ} (hx : (Interval.around x).Mem v)
    (hy : (Interval.around y).Mem v) : x.word = y.word := by
  rcases Nat.lt_trichotomy x.word y.word with hlt | heq | hgt
  · exact absurd hy (not_mem_of_word_lt hlt hx)
  · exact heq
  · exact absurd hx (not_mem_of_word_lt hgt hy)

theorem word_eq_of_shortest {x y : Binary64} (hx : x.isZero = false) (hy : y.isZero = false)
    {tie : Tie} (h : (shortest tie x).value = (shortest tie y).value) : x.word = y.word :=
  word_eq_of_mem (mem_shortest hx tie) (h ▸ mem_shortest hy tie)

theorem shortest_value_pos {x : Binary64} (h : x.isZero = false) (tie : Tie) :
    0 < (shortest tie x).value := by
  have hpos := Binary64.significand_pos h
  have hlow : 0 < (Interval.around x).low := by
    have := (low_around x).1
    omega
  have hend : 0 < (Interval.around x).low * (2 : ℚ) ^ (Interval.around x).unit :=
    mul_pos (by exact_mod_cast hlow) (zpow_pos (by norm_num) _)
  exact hend.trans_le (mem_shortest h tie).le.1

theorem Binary64.eq_of_word_eq {x y : Binary64} (hword : x.word = y.word)
    (hsign : x.negative = y.negative) : x = y := by
  have hx := x.bits.toNat_lt
  have hy := y.bits.toNat_lt
  have hbits : x.bits.toNat = y.bits.toNat := by
    simp only [word, exponentField, fractionField, negative, leadingBit, decide_eq_decide] at *
    omega
  obtain ⟨bits⟩ := x
  obtain ⟨bits'⟩ := y
  exact congrArg Binary64.mk (UInt64.toNat_inj.mp hbits)

end ScriptFeatures.Decimal
