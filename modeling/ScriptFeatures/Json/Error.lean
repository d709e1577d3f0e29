import ScriptFeatures.Json.Value
import ScriptFeatures.Text.Quoted

/-!
Why a text is refused: it is no JSON, or it is JSON of another shape than the
one asked for, or it ends too soon.
-/

namespace ScriptFeatures.Json

/-- What the end of the text cuts off. -/
inductive Inside
  | value
  | list
  | object
  | string
  deriving DecidableEq, Repr

/-- What stands where another kind of value was asked for. -/
inductive Found
  | null
  | bool (b : Bool)
  | number (n : Number)
  | string (s : String)
  | list
  | object
  deriving DecidableEq, Repr

inductive Error
  | endOfText (inside : Inside)
  | noValue
  | misspelledWord
  | badNumber
  | numberOutOfRange
  | noListSeparator
  | noMemberSeparator
  | noColon
  | nameNotText
  | trailingComma
  | trailingText
  | badEscape
  | loneSurrogate
  | unfinishedSurrogatePair
  | controlCharacter
  | nestedTooDeep
  | wrongType (found : Found) (expected : String)
  | negative (n : Int) (expected : String)
  | wrongLength (length : Nat) (expected : String)
  | missingMember (name : String)
  | repeatedMember (name : String)
  deriving DecidableEq, Repr

inductive Error.Category
  | form
  | shape
  | truncated
  deriving DecidableEq, Repr

def Error.category : Error → Error.Category
  | .endOfText _ => .truncated
  | .wrongType .. | .negative .. | .wrongLength .. | .missingMember _ | .repeatedMember _ => .shape
  | _ => .form

def Inside.message : Inside → String
  | .value => "EOF while parsing a value"
  | .list => "EOF while parsing a list"
  | .object => "EOF while parsing an object"
  | .string => "EOF while parsing a string"

def Found.message : Found → String
  | .null => "null"
  | .bool b => "boolean `" ++ (if b then "true" else "false") ++ "`"
  | .number (.integer n) => "integer `" ++ String.ofList (integerText n) ++ "`"
  | .number (.double x) => "floating point `" ++ String.ofList (numberLayout.text x) ++ "`"
  | .string s => "string " ++ Text.quoted s
  | .list => "sequence"
  | .object => "map"

def Error.message : Error → String
  | .endOfText inside => inside.message
  | .noValue => "expected value"
  | .misspelledWord => "expected ident"
  | .badNumber => "invalid number"
  | .numberOutOfRange => "number out of range"
  | .noListSeparator => "expected `,` or `]`"
  | .noMemberSeparator => "expected `,` or `\x7d`"
  | .noColon => "expected `:`"
  | .nameNotText => "key must be a string"
  | .trailingComma => "trailing comma"
  | .trailingText => "trailing characters"
  | .badEscape => "invalid escape"
  | .loneSurrogate => "lone leading surrogate in hex escape"
  | .unfinishedSurrogatePair => "unexpected end of hex escape"
  | .controlCharacter => "control character (\\u0000-\\u001F) found while parsing a string"
  | .nestedTooDeep => "recursion limit exceeded"
  | .wrongType found expected => "invalid type: " ++ found.message ++ ", expected " ++ expected
  | .negative n expected =>
    "invalid value: integer `" ++ String.ofList (integerText n) ++ "`, expected " ++ expected
  | .wrongLength n expected => "invalid length " ++ toString n ++ ", expected " ++ expected
  | .missingMember name => "missing field `" ++ name ++ "`"
  | .repeatedMember name => "duplicate field `" ++ name ++ "`"

end ScriptFeatures.Json
