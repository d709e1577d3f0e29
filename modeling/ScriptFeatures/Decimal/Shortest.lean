import ScriptFeatures.Decimal.Binary64

/-!
The shortest decimal that identifies a double-precision number. A decimal
identifies the number when it lies among the reals that round to it: between
the midpoints to its two neighbours, the midpoints included when the
significand is even. Grids of ever more digits are searched until one has a
point in that interval, and of two such points the one closer to the number
is taken. Which one that is when they are equally close is up to the caller.
-/

namespace ScriptFeatures.Decimal

/-- The decimal `digits * 10 ^ exponent`. -/
structure Scientific where
  digits : Nat
  exponent : Int
  deriving DecidableEq, Repr

/-- Which of two equally close neighbours stands for a number: the one with
the even last digit, or the upper one. -/
inductive Tie
  | toEven
  | up
  deriving DecidableEq, Repr

def Tie.staysBelow (t : Tie) (below : Nat) : Bool :=
  match t with
  | .toEven => below % 2 == 0
  | .up => false

/-- The reals that round to one number, in units of `2 ^ unit`. -/
structure Interval where
  low : Nat
  mid : Nat
  high : Nat
  unit : Int
  closed : Bool

/-- The gap below a power of two is half the gap above it. -/
def Interval.around (x : Binary64) : Interval :=
  let m := x.significand
  let narrow := x.fractionField == 0 && decide (x.exponentField > 1)
  { low := if narrow then 4 * m - 1 else 4 * m - 2
    mid := 4 * m
    high := 4 * m + 2
    unit := x.exponent - 2
    closed := m % 2 == 0 }

namespace Interval

def gridFactor (i : Interval) (g : Int) : Nat :=
  Nat.pow 10 g.toNat * Nat.pow 2 (-i.unit).toNat

def unitFactor (i : Interval) (g : Int) : Nat :=
  Nat.pow 10 (-g).toNat * Nat.pow 2 i.unit.toNat

def contains (i : Interval) (d : Scientific) : Bool :=
  let point := d.digits * i.gridFactor d.exponent
  let low := i.low * i.unitFactor d.exponent
  let high := i.high * i.unitFactor d.exponent
  if i.closed then low ≤ point && point ≤ high else low < point && point < high

def nearest? (i : Interval) (tie : Tie) (g : Int) : Option Scientific :=
  let p := i.gridFactor g
  let middle := i.mid * i.unitFactor g
  let below : Scientific := ⟨middle / p, g⟩
  let above : Scientific := ⟨middle / p + 1, g⟩
  match i.contains below, i.contains above with
  | true, true =>
    let twice := 2 * (middle % p)
    if twice < p ∨ (twice = p ∧ tie.staysBelow below.digits) then some below else some above
  | true, false => some below
  | false, true => some above
  | false, false => none

/-- Searches the spacings `10 ^ g`, `10 ^ (g - 1)`, … -/
def search (i : Interval) (tie : Tie) (g : Int) : Nat → Option Scientific
  | 0 => none
  | fuel + 1 =>
    match i.nearest? tie g with
    | some d => some d
    | none => i.search tie (g - 1) fuel

end Interval

def stripZeros (digits : Nat) (exponent : Int) : Nat → Scientific
  | 0 => ⟨digits, exponent⟩
  | fuel + 1 =>
    if digits % 10 = 0 then stripZeros (digits / 10) (exponent + 1) fuel else ⟨digits, exponent⟩

/-- A power of ten that is not below the magnitude of a finite number. -/
def magnitudeBound (x : Binary64) : Int :=
  ((x.significand.log2 : Int) + x.exponent + 1) * 30103 / 100000 + 1

/-- The shortest decimal that identifies the magnitude of a finite number
other than zero. Seventeen digits always identify one; should no grid answer,
the exact value is given. -/
def shortest (tie : Tie) (x : Binary64) : Scientific :=
  match (Interval.around x).search tie (magnitudeBound x) 20 with
  | some d => stripZeros d.digits d.exponent 20
  | none =>
    ⟨x.significand * Nat.pow 2 x.exponent.toNat * Nat.pow 5 (-x.exponent).toNat,
      -(-x.exponent).toNat⟩

end ScriptFeatures.Decimal
