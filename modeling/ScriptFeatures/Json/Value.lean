import ScriptFeatures.Decimal.Layout

/-!
JSON values. A number is an integer or a double; an object is the list of its
members in the order they were written, one member for each name.
-/

namespace ScriptFeatures.Json

open ScriptFeatures.Decimal

inductive Number
  | integer (n : Int)
  | double (x : Binary64)
  deriving DecidableEq, Repr

inductive Value
  | null
  | bool (b : Bool)
  | number (n : Number)
  | string (s : String)
  | array (items : List Value)
  | object (members : List (String × Value))
  deriving Repr

abbrev Members := List (String × Value)

/-- Doubles are written with the fewest digits that identify them, always
with a fraction, and with an exponent below `10 ^ -5` and from `10 ^ 16` on.
A tie goes to the even digit. -/
def numberLayout : Layout :=
  { tie := .toEven, positional := some (-5, 15), wholeFraction := true, notANumber := "null",
    infinite := "null" }

def integerText (n : Int) : List Char :=
  if n < 0 then '-' :: decimalDigits n.natAbs else decimalDigits n.natAbs

def Number.text : Number → List Char
  | .integer n => integerText n
  | .double x => numberLayout.text x

/-- The integer of a number that fits 64 bits with a sign. -/
def Number.signed? : Number → Option Int
  | .integer n => if n < 0x8000000000000000 then some n else none
  | .double _ => none

/-- The integer of a number that is not negative. -/
def Number.natural? : Number → Option Nat
  | .integer n => if 0 ≤ n then some n.toNat else none
  | .double _ => none

def Number.toBinary64 : Number → Binary64
  | .integer n => if n < 0 then (Binary64.ofNat n.natAbs).neg else Binary64.ofNat n.natAbs
  | .double x => x

namespace Value

def string? : Value → Option String
  | .string s => some s
  | _ => none

def natural? : Value → Option Nat
  | .number n => n.natural?
  | _ => none

def items : Value → List Value
  | .array items => items
  | _ => []

def members : Value → Members
  | .object members => members
  | _ => []

end Value

/-- The value of the first member of a name. -/
def Members.get? (ms : Members) (name : String) : Option Value := ms.lookup name

def Members.update (name : String) (v : Value) : Members → Members
  | [] => []
  | (k, w) :: ms => if k = name then (k, v) :: ms else (k, w) :: update name v ms

/-- Puts a member in front of those already there, or, if there is one of its
name, changes the value of that one where it stands. -/
def Members.put (ms : Members) (name : String) (v : Value) : Members :=
  if ms.any (·.1 == name) then ms.update name v else (name, v) :: ms

end ScriptFeatures.Json
