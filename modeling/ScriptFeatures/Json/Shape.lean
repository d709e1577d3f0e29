import ScriptFeatures.Json.Error

/-!
The shape a value is asked to have. A record may be written as an object or
as the list of its members in order; the optional members come last and are
empty lists when they are left out. An ignored value only has to be well
formed.
-/

namespace ScriptFeatures.Json

inductive Shape
  | any
  | ignored
  | string
  | natural (width : String)
  | list (element : Shape)
  | tuple (places : List Shape)
  | record (name : String) (required optional : List (String × Shape))
  deriving Repr

def Shape.isIgnored : Shape → Bool
  | .ignored => true
  | _ => false

def tupleExpected (size : Nat) : String := "a tuple of size " ++ toString size

/-- A record by its number of members, as it is asked for in list form. -/
def rowExpected (name : String) (size : Nat) : String :=
  "struct " ++ name ++ " with " ++ toString size ++ " elements"

def Shape.expected : Shape → String
  | .any | .ignored => "any value"
  | .string => "a string"
  | .natural width => width
  | .list _ => "a sequence"
  | .tuple places => tupleExpected places.length
  | .record name _ _ => "struct " ++ name

def Value.found : Value → Found
  | .null => .null
  | .bool b => .bool b
  | .number n => .number n
  | .string s => .string s
  | .array _ => .list
  | .object _ => .object

/-- What becomes of a null, truth value, number or string where a value of
the shape is asked for. -/
def Shape.accept (shape : Shape) (v : Value) : Except Error Value :=
  match shape, v with
  | .any, _ => .ok v
  | .ignored, _ => .ok .null
  | .string, .string _ => .ok v
  | .natural width, .number (.integer n) =>
    if 0 ≤ n then .ok v else .error (.negative n width)
  | _, _ => .error (.wrongType v.found shape.expected)

end ScriptFeatures.Json
