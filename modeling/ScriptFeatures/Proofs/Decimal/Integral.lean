import Mathlib.Tactic.Ring
import ScriptFeatures.Decimal.Binary64

/-!
The double nearest to an integer of 64 bits, with or without a sign. Its
significand has 53 bits, or one more where rounding carries, so it is far from
being out of range (`Binary64.isFinite_ofNat`).
-/

namespace ScriptFeatures.Decimal

theorem roundDiv_le (num den : ℕ) : roundDiv num den ≤ num / den + 1 := by
  simp only [roundDiv]
  split <;> omega

namespace Binary64

theorem isFinite_of_lt {word : ℕ} (h : word < infinity.bits.toNat) :
    (⟨word.toUInt64⟩ : Binary64).isFinite = true := by
  have hinfinity : infinity.bits.toNat = 2047 * leadingBit := by decide
  have hbits : word.toUInt64.toNat = word := by
    rw [UInt64.toNat_ofNat']
    simp only [leadingBit] at hinfinity
    omega
  simp only [isFinite, exponentField, hbits, bne_iff_ne, leadingBit] at *
  omega

theorem exponentField_neg (x : Binary64) : x.neg.exponentField = x.exponentField := by
  have hshift (n : ℕ) : n / leadingBit = n >>> 52 := by
    rw [Nat.shiftRight_eq_div_pow]
    rfl
  have hmod (n : ℕ) : n % 2048 = n % 2 ^ 11 := rfl
  have hsign : (0x8000000000000000 : UInt64).toNat >>> 52 % 2 ^ 11 = 0 := by decide
  rw [exponentField, exponentField, neg, UInt64.toNat_xor, hshift, hshift, hmod, hmod,
    Nat.shiftRight_xor_distrib, Nat.xor_mod_two_pow, hsign, Nat.xor_zero]

theorem ratioLog2_one {n : ℕ} (h : n ≠ 0) : ratioLog2 n 1 = n.log2 := by
  have hone : Nat.log2 1 = 0 := by decide
  have hle : Nat.pow 2 n.log2 ≤ n := Nat.log2_self_le h
  have hzero : (-(n.log2 : ℤ)).toNat = 0 := by omega
  simp only [ratioLog2, hone, Nat.cast_zero, sub_zero, hzero, Int.toNat_natCast, Nat.one_mul]
  rw [if_neg]
  have hpow : Nat.pow 2 0 = 1 := rfl
  rw [hpow, Nat.mul_one]
  exact Nat.not_lt_of_le hle

theorem scaled_lt (n : ℕ) :
    n * Nat.pow 2 (-((n.log2 : ℤ) - 52)).toNat / (1 * Nat.pow 2 ((n.log2 : ℤ) - 52).toNat) <
      2 ^ 53 := by
  have hlt : n < 2 ^ (n.log2 + 1) := Nat.lt_log2_self
  rw [Nat.one_mul, Nat.pow_eq, Nat.pow_eq]
  rcases Nat.le_total n.log2 52 with hsmall | hlarge
  · have hdown : ((n.log2 : ℤ) - 52).toNat = 0 := by omega
    have hup : (-((n.log2 : ℤ) - 52)).toNat = 52 - n.log2 := by omega
    rw [hdown, hup, pow_zero, Nat.div_one]
    calc n * 2 ^ (52 - n.log2) < 2 ^ (n.log2 + 1) * 2 ^ (52 - n.log2) :=
          Nat.mul_lt_mul_of_pos_right hlt (Nat.two_pow_pos _)
      _ = 2 ^ 53 := by
          rw [← pow_add]
          congr 1
          omega
  · have hdown : ((n.log2 : ℤ) - 52).toNat = n.log2 - 52 := by omega
    have hup : (-((n.log2 : ℤ) - 52)).toNat = 0 := by omega
    rw [hdown, hup, pow_zero, Nat.mul_one]
    refine Nat.div_lt_of_lt_mul (hlt.trans_eq ?_)
    rw [← pow_add]
    congr 1
    omega

/-- The number nearest to an integer of 64 bits. -/
theorem isFinite_ofNat {n : ℕ} (h : n < 0x10000000000000000) : (ofNat n).isFinite = true := by
  rw [ofNat, ofRatio]
  split
  · decide
  next hzero =>
  have hlog : n.log2 < 64 := (Nat.log2_lt hzero).mpr h
  have hmax : max (-1074) ((n.log2 : ℤ) - 52) = n.log2 - 52 := by omega
  simp only [ratioLog2_one hzero, hmax]
  have hle := roundDiv_le (n * Nat.pow 2 (-((n.log2 : ℤ) - 52)).toNat)
    (1 * Nat.pow 2 ((n.log2 : ℤ) - 52).toNat)
  have hm := hle.trans (Nat.succ_le_of_lt (scaled_lt n))
  generalize roundDiv _ _ = m at hm
  have hword : (if m < leadingBit then m
      else ((n.log2 : ℤ) - 52 + 1075).toNat * leadingBit + (m - leadingBit)) <
        infinity.bits.toNat := by
    have hinfinity : infinity.bits.toNat = 2047 * leadingBit := by decide
    by_cases hsmall : m < leadingBit
    · rw [if_pos hsmall, hinfinity]
      omega
    · rw [if_neg hsmall, hinfinity]
      simp only [leadingBit]
      omega
  rw [if_pos hword]
  exact isFinite_of_lt hword

end Binary64

end ScriptFeatures.Decimal
