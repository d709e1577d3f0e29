import ScriptFeatures.Text.Printable

/-!
Text in double quotes as error messages show it: quotes, backslashes and the
common controls are escaped by a letter, everything unprintable by its code
point in braces.
-/

namespace ScriptFeatures.Text

def escapeCodePoint (c : Char) : List Char :=
  "\\u\x7b".toList ++ Nat.toDigits 16 c.toNat ++ ['\x7d']

def escapeShown (c : Char) : List Char :=
  match c with
  | '\x00' => ['\\', '0']
  | '\t' => ['\\', 't']
  | '\n' => ['\\', 'n']
  | '\r' => ['\\', 'r']
  | '"' => ['\\', '"']
  | '\\' => ['\\', '\\']
  | _ => if isPrintable c then [c] else escapeCodePoint c

def quoted (s : String) : String :=
  String.ofList ('"' :: s.toList.flatMap escapeShown ++ ['"'])

end ScriptFeatures.Text
