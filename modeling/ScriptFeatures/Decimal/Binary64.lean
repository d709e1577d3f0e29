/-!
Double-precision numbers as exact integers. A number is kept as its 64 bits,
so equality of numbers is equality of bits, and a finite one stands for
`m * 2 ^ q`. Arithmetic is done on naturals and rounded once, to the nearest
representable number, a tie going to the even significand.
-/

namespace ScriptFeatures.Decimal

structure Binary64 where
  bits : UInt64
  deriving DecidableEq, Hashable, Repr

/-- The quotient rounded to the nearest integer, a half to the even neighbour. -/
def roundDiv (num den : Nat) : Nat :=
  let low := num / den
  let twice := 2 * (num % den)
  if twice < den ∨ (twice = den ∧ low % 2 = 0) then low else low + 1

namespace Binary64

def zero : Binary64 := ⟨0⟩

/-- The leading bit of the significand of a normal number, `2 ^ 52`. -/
def leadingBit : Nat := 0x10000000000000

def infinity : Binary64 := ⟨0x7FF0000000000000⟩

def negative (x : Binary64) : Bool := decide (x.bits.toNat ≥ 0x8000000000000000)

def exponentField (x : Binary64) : Nat := x.bits.toNat / leadingBit % 2048

def fractionField (x : Binary64) : Nat := x.bits.toNat % leadingBit

def isFinite (x : Binary64) : Bool := x.exponentField != 2047

def isNaN (x : Binary64) : Bool := x.exponentField == 2047 && x.fractionField != 0

def isZero (x : Binary64) : Bool := x.exponentField == 0 && x.fractionField == 0

def neg (x : Binary64) : Binary64 := ⟨x.bits ^^^ 0x8000000000000000⟩

def significand (x : Binary64) : Nat :=
  if x.exponentField = 0 then x.fractionField else leadingBit + x.fractionField

def exponent (x : Binary64) : Int :=
  if x.exponentField = 0 then -1074 else (x.exponentField : Int) - 1075

/-- The whole part of the binary logarithm of `num / den`. -/
def ratioLog2 (num den : Nat) : Int :=
  let e : Int := (num.log2 : Int) - den.log2
  if num * Nat.pow 2 (-e).toNat < den * Nat.pow 2 e.toNat then e - 1 else e

/-- The number nearest to `num / den`; infinity when it is out of range. -/
def ofRatio (num den : Nat) : Binary64 :=
  if num = 0 then zero else
  let q := max (-1074) (ratioLog2 num den - 52)
  let m := roundDiv (num * Nat.pow 2 (-q).toNat) (den * Nat.pow 2 q.toNat)
  let word := if m < leadingBit then m else (q + 1075).toNat * leadingBit + (m - leadingBit)
  if word < infinity.bits.toNat then ⟨word.toUInt64⟩ else infinity

def ofNat (n : Nat) : Binary64 := ofRatio n 1

def mul (x y : Binary64) : Binary64 :=
  let q := x.exponent + y.exponent
  ofRatio (x.significand * y.significand * Nat.pow 2 q.toNat) (Nat.pow 2 (-q).toNat)

def div (x y : Binary64) : Binary64 :=
  let q := x.exponent - y.exponent
  ofRatio (x.significand * Nat.pow 2 q.toNat) (y.significand * Nat.pow 2 (-q).toNat)

def powerOfTen (k : Nat) : Binary64 := ofNat (Nat.pow 10 k)

end Binary64

end ScriptFeatures.Decimal
