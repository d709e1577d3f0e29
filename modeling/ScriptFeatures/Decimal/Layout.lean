import ScriptFeatures.Decimal.Shortest

/-!
How a decimal is laid out as text: positional or with an exponent, and with
or without a fraction when the number is whole.
-/

namespace ScriptFeatures.Decimal

structure Layout where
  /-- Which of two equally short and equally close decimals is written. -/
  tie : Tie
  /-- The least and the greatest power of ten of the first digit that are
  written without an exponent; `none` when every number is. -/
  positional : Option (Int × Int)
  /-- Whether a whole number written without an exponent ends in `.0`. -/
  wholeFraction : Bool
  notANumber : String
  infinite : String

def decimalDigits (n : Nat) : List Char := Nat.toDigits 10 n

/-- The digits with the point after the first `whole` of them, padded with
zeros on either side. -/
def Layout.point (l : Layout) (digits : List Char) (whole : Int) : List Char :=
  if whole ≤ 0 then
    '0' :: '.' :: List.replicate (-whole).toNat '0' ++ digits
  else if digits.length ≤ whole.toNat then
    digits ++ List.replicate (whole.toNat - digits.length) '0'
      ++ (if l.wholeFraction then ['.', '0'] else [])
  else
    digits.take whole.toNat ++ '.' :: digits.drop whole.toNat

def scientific (digits : List Char) (power : Int) : List Char :=
  digits.take 1 ++ (if digits.length > 1 then '.' :: digits.drop 1 else [])
    ++ 'e' :: (if power < 0 then '-' else '+') :: decimalDigits power.natAbs

def Layout.magnitude (l : Layout) (d : Scientific) : List Char :=
  let digits := decimalDigits d.digits
  let power : Int := d.exponent + digits.length - 1
  match l.positional with
  | some (least, greatest) =>
    if least ≤ power ∧ power ≤ greatest then l.point digits (power + 1)
    else scientific digits power
  | none => l.point digits (power + 1)

def Layout.text (l : Layout) (x : Binary64) : List Char :=
  if x.isNaN then l.notANumber.toList else
  (if x.negative then ['-'] else []) ++
    if !x.isFinite then l.infinite.toList
    else if x.isZero then l.magnitude ⟨0, 0⟩
    else l.magnitude (shortest l.tie x)

end ScriptFeatures.Decimal
