import ScriptFeatures.Error
import ScriptFeatures.Feature.Basic
import ScriptFeatures.Tree.Basic

/-!
The feature of a literal: its type is the context, and its value comes from
the node's `value` or, failing that, from its regular expression.
-/

namespace ScriptFeatures

inductive LiteralType
  | string
  | integer
  | numeric
  | bool
  | null
  | regex
  deriving DecidableEq, Repr

def LiteralType.name : LiteralType → String
  | .string => "String"
  | .integer => "Int"
  | .numeric => "Numeric"
  | .bool => "Bool"
  | .null => "Null"
  | .regex => "RegExp"

/-- The type and value that a scalar attribute stands for. -/
def Attribute.literal? : Attribute → Option (LiteralType × FeatureValue)
  | .string s => some (.string, .string s)
  | .integer n => some (.integer, .integer n)
  | .double x => some (.numeric, .double x)
  | .bool b => some (.bool, .bool b)
  | .null => some (.null, .null)
  | .range .. | .regex .. | .emptyList => none

def Attribute.pattern? : Attribute → Option String
  | .regex pattern _ => some pattern
  | _ => none

namespace Node

def attribute? (n : Node) (name : String) : Option Attribute := n.attributes.get? name

def text? (n : Node) (name : String) : Option String :=
  (n.attribute? name).bind Attribute.string?

def literal (n : Node) : Except Error (LiteralType × FeatureValue) :=
  match (n.attribute? "value").bind Attribute.literal? with
  | some found => .ok found
  | none =>
    match (n.attribute? "regex").bind Attribute.pattern? with
    | some pattern => .ok (.regex, .string pattern)
    | none => .error (.untypedLiteral ((n.text? "raw").getD n.kind))

end Node

end ScriptFeatures
