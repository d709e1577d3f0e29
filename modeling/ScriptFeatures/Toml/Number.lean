import ScriptFeatures.Decimal.Binary64
import ScriptFeatures.Toml.Scanner

/-!
Reading the numbers and dates of TOML. A value that begins with a digit is a
date if a hyphen follows four digits, a time if a colon follows two, and
otherwise a number.
-/

namespace ScriptFeatures.Toml

open Scanner

/-- A value without parts. Of a float and a date it is not kept which. -/
inductive Scalar
  | integer (n : Int)
  | float
  | date
  deriving DecidableEq, Repr

def digitsValue (base : Nat) (cs : List Char) : Nat :=
  cs.foldl (fun n c => n * base + (hexValue? c).getD 0) 0

/-- Digits, single underscores allowed between them. -/
def digits (isDigit : Char → Bool) : Scanner (List Char) := do
  let cs ← takeWhile fun c => isDigit c || c == '_'
  let shown := '_' :: cs ++ ['_']
  if cs.isEmpty || (shown.zip shown.tail).any (· == ('_', '_')) then fail
  return cs.filter (· != '_')

/-- The digits of a decimal integer, which has no leading zeros. -/
def decimalDigits : Scanner (List Char) := do
  if ← word? ['0'] then return ['0']
  digits Char.isDigit

def integerOf (n : Int) : Scanner Scalar :=
  if -0x8000000000000000 ≤ n ∧ n < 0x8000000000000000 then return .integer n else fail

def sign? : Scanner (Option Bool) := do
  if ← word? ['+'] then return some false
  else if ← word? ['-'] then return some true
  else return none

/-- Whether `digits * 10 ^ e` rounds to infinity. -/
def overflows (digits : List Char) (e : Int) : Bool :=
  let significant := digits.dropWhile (· == '0')
  let magnitude := significant.length + e
  if significant.isEmpty || magnitude < 300 then false
  else if magnitude > 320 then true
  else
    let x := Decimal.Binary64.ofRatio (digitsValue 10 significant * Nat.pow 10 e.toNat)
      (Nat.pow 10 (-e).toNat)
    !x.isFinite

def exponent? : Scanner (Option Int) := do
  if !(← wordOf? [['e'], ['E']]) then return none
  let negative := (← sign?) == some true
  let n : Int := digitsValue 10 (← digits Char.isDigit)
  return some (if negative then -n else n)

def decimal (negative : Bool) : Scanner Scalar := do
  let whole ← decimalDigits
  let fraction ← if ← word? ['.'] then some <$> digits Char.isDigit else pure none
  match fraction, ← exponent? with
  | none, none =>
    let n : Int := digitsValue 10 whole
    integerOf (if negative then -n else n)
  | fraction, e =>
    let fraction := fraction.getD []
    if !negative && overflows (whole ++ fraction) (e.getD 0 - fraction.length) then fail
    return .float

def number : Scanner Scalar := do
  let sign ← sign?
  if ← wordOf? [['i', 'n', 'f'], ['n', 'a', 'n']] then return .float
  if sign.isSome then return ← decimal (sign == some true)
  if ← word? ['0', 'x'] then
    return ← integerOf (digitsValue 16 (← digits fun c => (hexValue? c).isSome))
  if ← word? ['0', 'o'] then
    return ← integerOf (digitsValue 8 (← digits fun c => '0' ≤ c && c ≤ '7'))
  if ← word? ['0', 'b'] then
    return ← integerOf (digitsValue 2 (← digits fun c => c == '0' || c == '1'))
  decimal false

/-! ### Dates and times -/

def fixed (width low high : Nat) : Scanner Nat := fun cs => do
  let ds := cs.take width
  guard (ds.length = width ∧ ds.all Char.isDigit)
  let n := digitsValue 10 ds
  guard (low ≤ n ∧ n ≤ high)
  return (n, cs.drop width)

def isLeapYear (y : Nat) : Bool := y % 4 == 0 && (y % 100 != 0 || y % 400 == 0)

def monthLength (year month : Nat) : Nat :=
  if month = 2 then if isLeapYear year then 29 else 28
  else if month = 4 ∨ month = 6 ∨ month = 9 ∨ month = 11 then 30
  else 31

def date : Scanner Unit := do
  let year ← fixed 4 0 9999
  char '-'
  let month ← fixed 2 1 12
  char '-'
  let _ ← fixed 2 1 (monthLength year month)

def hour : Scanner Unit := do
  let _ ← fixed 2 0 23
  char ':'

/-- A time after its hour. A minute may have a leap second. -/
def timeAfterHour : Scanner Unit := do
  let _ ← fixed 2 0 59
  char ':'
  let _ ← fixed 2 0 60
  if ← word? ['.'] then
    let _ ← satisfy Char.isDigit
    let _ ← takeWhile Char.isDigit

def offset : Scanner Unit := do
  if ← wordOf? [['Z'], ['z']] then return
  if (← sign?).isSome then
    hour
    let _ ← fixed 2 0 59

def timeOfDay : Scanner Unit := do
  let start : Scanner Unit := do
    let _ ← satisfy fun c => c == 'T' || c == 't' || c == ' '
    hour
  if (← attempt? start).isSome then
    timeAfterHour
    offset

def numberOrDate : Scanner Scalar := do
  let cs ← rest
  let startsWith (width : Nat) (c : Char) : Bool :=
    (cs.take width).all Char.isDigit && cs[width]? == some c
  if startsWith 4 '-' then
    date
    timeOfDay
    return .date
  else if startsWith 2 ':' then
    hour
    timeAfterHour
    return .date
  else number

end ScriptFeatures.Toml
