/-!
Reading TOML text: blanks, comments, keys and strings. A scanner takes what
it reads off the front of the text and fails when the text does not begin
with it.
-/

namespace ScriptFeatures.Toml

abbrev Scanner := StateT (List Char) Option

namespace Scanner

def fail : Scanner α := fun _ => none

def peek? : Scanner (Option Char) := fun cs => some (cs.head?, cs)

def rest : Scanner (List Char) := fun cs => some (cs, cs)

def any : Scanner Char
  | [] => none
  | c :: cs => some (c, cs)

def satisfy (p : Char → Bool) : Scanner Char
  | [] => none
  | c :: cs => if p c then some (c, cs) else none

def char (c : Char) : Scanner Unit := do let _ ← satisfy (· == c)

def word? (w : List Char) : Scanner Bool := fun cs =>
  if w.isPrefixOf cs then some (true, cs.drop w.length) else some (false, cs)

def wordOf? : List (List Char) → Scanner Bool
  | [] => return false
  | w :: ws => do
    if ← word? w then return true
    wordOf? ws

def word (w : List Char) : Scanner Unit := do
  if !(← word? w) then fail

def takeWhile (p : Char → Bool) : Scanner (List Char) := fun cs => some (cs.span p)

/-- Runs a scanner on the rest and takes nothing off when it fails. -/
def attempt? (s : Scanner α) : Scanner (Option α) := fun cs =>
  match s cs with
  | some (a, cs) => some (some a, cs)
  | none => some (none, cs)

end Scanner

open Scanner

/-! ### Blanks and comments -/

def isBlank (c : Char) : Bool := c == ' ' || c == '\t'

/-- Everything but the controls, among which a tab is not counted. -/
def isPlain (c : Char) : Bool := c == '\t' || (c.val ≥ 0x20 && c.val != 0x7F)

def blanks : Scanner Unit := do let _ ← takeWhile isBlank

def newline? : Scanner Bool := wordOf? [['\n'], ['\r', '\n']]

def comment : Scanner Unit := do
  if (← peek?) == some '#' then
    let _ ← takeWhile isPlain

def lineEnd : Scanner Unit := do
  blanks
  comment
  if !(← newline?) && (← peek?).isSome then fail

/-- Blanks, comments and line breaks, as many as `fuel` lines of them. -/
def gap : Nat → Scanner Unit
  | 0 => pure ()
  | fuel + 1 => do
    blanks
    comment
    if ← newline? then gap fuel

/-! ### Strings -/

def hexValue? (c : Char) : Option Nat :=
  if c.isDigit then some (c.toNat - '0'.toNat)
  else if 'a' ≤ c ∧ c ≤ 'f' then some (c.toNat - 'a'.toNat + 10)
  else if 'A' ≤ c ∧ c ≤ 'F' then some (c.toNat - 'A'.toNat + 10)
  else none

def codePoint (digits : Nat) : Scanner Char := fun cs => do
  let values ← (cs.take digits).mapM hexValue?
  guard (values.length = digits)
  let n := values.foldl (fun n d => n * 16 + d) 0
  guard n.isValidChar
  return (Char.ofNat n, cs.drop digits)

def escape : Scanner Char := do
  match ← any with
  | 'b' => return '\x08'
  | 't' => return '\t'
  | 'n' => return '\n'
  | 'f' => return '\x0c'
  | 'r' => return '\r'
  | '"' => return '"'
  | '\\' => return '\\'
  | 'u' => codePoint 4
  | 'U' => codePoint 8
  | _ => fail

def basicBody (read : List Char) : Nat → Scanner String
  | 0 => fail
  | fuel + 1 => do
    match ← any with
    | '"' => return String.ofList read.reverse
    | '\\' => basicBody ((← escape) :: read) fuel
    | c => if isPlain c then basicBody (c :: read) fuel else fail

def literalBody : Scanner String := do
  let cs ← takeWhile fun c => isPlain c && c != '\''
  char '\''
  return String.ofList cs

def lineBreaks : Nat → Scanner Unit
  | 0 => pure ()
  | fuel + 1 => do
    blanks
    if ← newline? then lineBreaks fuel

/-- A backslash at the end of a line joins it to the next text. -/
def joinLines : Scanner Unit := do
  blanks
  if ← newline? then lineBreaks ((← rest).length + 1) else fail

/-- A run of quotes in a string of several lines: three close it and up to
two before them belong to it. The text is given back if it ends here. -/
def closing? (quote : Char) (read : List Char) : Scanner (List Char × Bool) := do
  let quotes ← takeWhile (· == quote)
  let n := quotes.length
  if n < 3 then return (quotes ++ read, false)
  else if n ≤ 5 then return (List.replicate (n - 3) quote ++ read, true)
  else fail

/-- The rest of a string of several lines, in which escapes may stand when it
is a basic one. -/
def linesBody (quote : Char) (read : List Char) : Nat → Scanner String
  | 0 => fail
  | fuel + 1 => do
    match ← peek? with
    | none => fail
    | some c =>
      if c == quote then
        let (read, closed) ← closing? quote read
        if closed then return String.ofList read.reverse
        linesBody quote read fuel
      else if ← newline? then linesBody quote ('\n' :: read) fuel
      else
        let _ ← any
        if c == '\\' && quote == '"' then
          match ← attempt? joinLines with
          | some _ => linesBody quote read fuel
          | none => linesBody quote ((← escape) :: read) fuel
        else if isPlain c then linesBody quote (c :: read) fuel
        else fail

def quotedLine : Scanner String := do
  match ← any with
  | '"' => basicBody [] ((← rest).length + 1)
  | '\'' => literalBody
  | _ => fail

def string : Scanner String := do
  let fuel := (← rest).length + 1
  for quote in ['"', '\''] do
    if ← word? (List.replicate 3 quote) then
      let _ ← newline?
      return ← linesBody quote [] fuel
  quotedLine

/-! ### Keys -/

def isKeyChar (c : Char) : Bool := c.isAlphanum || c == '-' || c == '_'

def keyPart : Scanner String := do
  match ← peek? with
  | some '"' | some '\'' => quotedLine
  | _ =>
    let cs ← takeWhile isKeyChar
    if cs.isEmpty then fail
    return String.ofList cs

def nestingLimit : Nat := 80

def keyParts (read : List String) : Nat → Scanner (List String)
  | 0 => fail
  | fuel + 1 => do
    blanks
    let part ← keyPart
    blanks
    if ← word? ['.'] then keyParts (part :: read) fuel
    else return (part :: read).reverse

def key : Scanner (List String) := keyParts [] (nestingLimit - 1)

end ScriptFeatures.Toml
