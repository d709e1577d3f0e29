import ScriptFeatures.Decimal.Layout

/-!
A feature: a value together with the context it was found in. Two features
are equal when contexts and values are; doubles are equal when their bits are.
-/

namespace ScriptFeatures

open Decimal

inductive FeatureValue
  | string (s : String)
  | integer (n : Int)
  | double (x : Binary64)
  | bool (b : Bool)
  | null
  deriving DecidableEq, Hashable, Repr

structure Feature where
  context : String
  value : FeatureValue
  deriving DecidableEq, Hashable, Repr

/-- Doubles are shown with the fewest digits that identify them and never
with an exponent. A tie goes up. -/
def displayLayout : Layout :=
  { tie := .up, positional := none, wholeFraction := false, notANumber := "NaN",
    infinite := "inf" }

def FeatureValue.text : FeatureValue → String
  | .string s => s
  | .integer n => toString n
  | .double x => String.ofList (displayLayout.text x)
  | .bool b => if b then "true" else "false"
  | .null => "null"

def Feature.text (f : Feature) : String := "(" ++ f.context ++ ", " ++ f.value.text ++ ")"

/-- The rank of a value's type, for values that are shown alike. -/
def FeatureValue.rank : FeatureValue → Nat
  | .string _ => 0
  | .integer _ => 1
  | .double _ => 2
  | .bool _ => 3
  | .null => 4

/-- The bits of a double, lowest byte first. They tell apart doubles that are
shown alike, which are not numbers. -/
def FeatureValue.bytesRank : FeatureValue → Nat
  | .double x => (List.range 8).foldl (fun n k => n * 256 + x.bits.toNat >>> (8 * k) % 256) 0
  | _ => 0

end ScriptFeatures
