import ScriptFeatures.Json.Error

/-!
Reading a number or a string character by character. A number says of a
character whether it continues the number, so it is complete when the first
character that does not belong to it arrives, or at the end of the text. A
string is complete at its closing quote.

In an ignored value a number is only checked for its form and the code units
of a string are not paired.
-/

namespace ScriptFeatures.Json

open ScriptFeatures.Decimal

def digitValue (c : Char) : Nat := c.toNat - '0'.toNat

def isExponentMark (c : Char) : Bool := c == 'e' || c == 'E'

/-! ### Numbers -/

inductive NumberScan.Stage
  | sign
  | leadingZero
  | whole
  | droppedWhole
  | point
  | fraction
  | droppedFraction
  | exponentMark
  | exponentSign
  | exponent
  | hugeExponent
  deriving DecidableEq, Repr

/-- The number read so far is `significand * 10 ^ scale` times ten to the
written exponent. Digits that no longer fit the significand are dropped. -/
structure NumberScan where
  negative : Bool
  stage : NumberScan.Stage
  significand : Nat
  scale : Int
  exponentNegative : Bool
  exponent : Nat
  deriving DecidableEq, Repr

namespace NumberScan

def maxSignificand : Nat := 0xFFFFFFFFFFFFFFFF

def maxExponent : Nat := 0x7FFFFFFF

def start (c : Char) : NumberScan :=
  { negative := c == '-'
    stage := if c == '-' then .sign else if c == '0' then .leadingZero else .whole
    significand := if c == '-' then 0 else digitValue c
    scale := 0
    exponentNegative := false
    exponent := 0 }

def extended (n : NumberScan) (c : Char) : Nat := n.significand * 10 + digitValue c

def wholeDigit (n : NumberScan) (c : Char) : NumberScan :=
  if n.extended c ≤ maxSignificand then { n with stage := .whole, significand := n.extended c }
  else { n with stage := .droppedWhole, scale := n.scale + 1 }

def fractionDigit (n : NumberScan) (c : Char) : NumberScan :=
  if n.extended c ≤ maxSignificand then
    { n with stage := .fraction, significand := n.extended c, scale := n.scale - 1 }
  else { n with stage := .droppedFraction }

def exponentDigit (skim : Bool) (n : NumberScan) (c : Char) : Except Error NumberScan :=
  let e := n.exponent * 10 + digitValue c
  if e ≤ maxExponent then .ok { n with stage := .exponent, exponent := e }
  else if !skim && !n.exponentNegative && n.significand != 0 then .error .numberOutOfRange
  else .ok { n with stage := .hugeExponent }

def afterWhole (n : NumberScan) (c : Char) : Option NumberScan :=
  if c == '.' then some { n with stage := .point }
  else if isExponentMark c then some { n with stage := .exponentMark }
  else none

def afterFraction (n : NumberScan) (c : Char) : Option NumberScan :=
  if isExponentMark c then some { n with stage := .exponentMark } else none

/-- The number continued by a character; `none` if the character does not
belong to it. -/
def step (skim : Bool) (n : NumberScan) (c : Char) : Except Error (Option NumberScan) :=
  match n.stage with
  | .sign =>
    if c == '0' then .ok (some { n with stage := .leadingZero })
    else if c.isDigit then .ok (some (n.wholeDigit c))
    else .error .badNumber
  | .leadingZero => if c.isDigit then .error .badNumber else .ok (n.afterWhole c)
  | .whole => if c.isDigit then .ok (some (n.wholeDigit c)) else .ok (n.afterWhole c)
  | .droppedWhole =>
    if c.isDigit then .ok (some { n with scale := n.scale + 1 }) else .ok (n.afterWhole c)
  | .point => if c.isDigit then .ok (some (n.fractionDigit c)) else .error .badNumber
  | .fraction => if c.isDigit then .ok (some (n.fractionDigit c)) else .ok (n.afterFraction c)
  | .droppedFraction => if c.isDigit then .ok (some n) else .ok (n.afterFraction c)
  | .exponentMark =>
    if c == '+' then .ok (some { n with stage := .exponentSign })
    else if c == '-' then .ok (some { n with stage := .exponentSign, exponentNegative := true })
    else if c.isDigit then some <$> n.exponentDigit skim c
    else .error .badNumber
  | .exponentSign => if c.isDigit then some <$> n.exponentDigit skim c else .error .badNumber
  | .exponent => if c.isDigit then some <$> n.exponentDigit skim c else .ok none
  | .hugeExponent => if c.isDigit then .ok (some n) else .ok none

/-- Divides by `10 ^ k`, by `10 ^ 308` at a time while the exponent is too
large to be divided by at once. -/
def scaleDown (x : Binary64) (k : Nat) : Binary64 :=
  if k ≤ 308 then x.div (Binary64.powerOfTen k)
  else if x.isZero then x
  else scaleDown (x.div (Binary64.powerOfTen 308)) (k - 308)
  termination_by k

/-- The double for `significand * 10 ^ e`, rounded at each step. -/
def scaled (significand : Nat) (e : Int) : Except Error Binary64 :=
  let x := Binary64.ofNat significand
  if e < 0 then .ok (scaleDown x e.natAbs)
  else if e ≤ 308 then
    let y := x.mul (Binary64.powerOfTen e.natAbs)
    if y.isFinite then .ok y else .error .numberOutOfRange
  else if x.isZero then .ok x
  else .error .numberOutOfRange

def signed (n : NumberScan) (x : Binary64) : Number := .double (if n.negative then x.neg else x)

/-- A number without fraction and exponent. Minus zero is a double, and so is
a negative number below the range of 64 bits. -/
def integral (n : NumberScan) : Number :=
  if !n.negative then .integer n.significand
  else if 0 < n.significand ∧ n.significand ≤ 0x8000000000000000 then .integer (-n.significand)
  else n.signed (Binary64.ofNat n.significand)

def fractional (n : NumberScan) : Except Error Number :=
  n.signed <$> scaled n.significand
    (n.scale + if n.exponentNegative then -(n.exponent : Int) else n.exponent)

/-- The number at a place where nothing continues it. -/
def value (n : NumberScan) : Except Error Number :=
  match n.stage with
  | .leadingZero | .whole => .ok n.integral
  | .hugeExponent => .ok (n.signed .zero)
  | .droppedWhole | .fraction | .droppedFraction | .exponent => n.fractional
  | .sign | .point | .exponentMark | .exponentSign => .error (.endOfText .value)

def isOpen (n : NumberScan) : Bool :=
  match n.stage with
  | .sign | .point | .exponentMark | .exponentSign => true
  | _ => false

/-- The value of a complete number; of one that is ignored it does not
matter. -/
def finish (skim : Bool) (n : NumberScan) : Except Error Number :=
  if skim then if n.isOpen then .error .badNumber else .ok (.integer 0)
  else n.value

end NumberScan

/-! ### Strings -/

inductive StringScan.Stage
  | plain
  | backslash
  /-- Four hexadecimal digits are to come, after a first half of a surrogate
  pair or on their own. -/
  | hex (high : Option Nat) (read : List Char)
  | secondBackslash (high : Nat)
  | secondMark (high : Nat)
  deriving DecidableEq, Repr

/-- The characters read so far are kept latest first. -/
structure StringScan where
  stage : StringScan.Stage
  read : List Char
  deriving DecidableEq, Repr

def hexValue? (c : Char) : Option Nat :=
  if c.isDigit then some (digitValue c)
  else if 'a' ≤ c ∧ c ≤ 'f' then some (c.toNat - 'a'.toNat + 10)
  else if 'A' ≤ c ∧ c ≤ 'F' then some (c.toNat - 'A'.toNat + 10)
  else none

def codeUnit? (digits : List Char) : Option Nat :=
  match digits.mapM hexValue? with
  | some [a, b, c, d] => some (((a * 16 + b) * 16 + c) * 16 + d)
  | _ => none

def escaped? (c : Char) : Option Char :=
  match c with
  | '"' => some '"'
  | '\\' => some '\\'
  | '/' => some '/'
  | 'b' => some '\x08'
  | 'f' => some '\x0c'
  | 'n' => some '\n'
  | 'r' => some '\r'
  | 't' => some '\t'
  | _ => none

def isHighSurrogate (n : Nat) : Bool := 0xD800 ≤ n && n ≤ 0xDBFF

def isLowSurrogate (n : Nat) : Bool := 0xDC00 ≤ n && n ≤ 0xDFFF

def pairedChar (high low : Nat) : Char :=
  Char.ofNat (0x10000 + (high - 0xD800) * 0x400 + (low - 0xDC00))

namespace StringScan

def start : StringScan := ⟨.plain, []⟩

def push (s : StringScan) (c : Char) : StringScan := ⟨.plain, c :: s.read⟩

/-- A code unit written in hexadecimal, after the first half of a pair or on
its own. -/
def unit (skim : Bool) (s : StringScan) (high : Option Nat) (n : Nat) : Except Error StringScan :=
  if skim then .ok { s with stage := .plain }
  else match high with
  | none =>
    if isLowSurrogate n then .error .loneSurrogate
    else if isHighSurrogate n then .ok { s with stage := .secondBackslash n }
    else .ok (s.push (Char.ofNat n))
  | some h => if isLowSurrogate n then .ok (s.push (pairedChar h n)) else .error .loneSurrogate

def byteCount : List Char → Nat
  | [] => 0
  | c :: cs => c.utf8Size + byteCount cs

/-- Four bytes make up an escape, whatever they are. -/
def hexDigit (skim : Bool) (s : StringScan) (high : Option Nat) (read : List Char) (c : Char) :
    Except Error StringScan :=
  let read := c :: read
  if byteCount read < 4 then .ok { s with stage := .hex high read }
  else match codeUnit? read.reverse with
  | some n => s.unit skim high n
  | none => .error .badEscape

def step (skim : Bool) (s : StringScan) (c : Char) : Except Error (Option StringScan) :=
  match s.stage with
  | .plain =>
    if c == '"' then .ok none
    else if c == '\\' then .ok (some { s with stage := .backslash })
    else if c.val < 0x20 then .error .controlCharacter
    else .ok (some (s.push c))
  | .backslash =>
    if c == 'u' then .ok (some { s with stage := .hex none [] })
    else match escaped? c with
    | some d => .ok (some (s.push d))
    | none => .error .badEscape
  | .hex high read => some <$> s.hexDigit skim high read c
  | .secondBackslash high =>
    if c == '\\' then .ok (some { s with stage := .secondMark high })
    else .error .unfinishedSurrogatePair
  | .secondMark high =>
    if c == 'u' then .ok (some { s with stage := .hex (some high) [] })
    else .error .unfinishedSurrogatePair

def text (s : StringScan) : String := String.ofList s.read.reverse

end StringScan

end ScriptFeatures.Json
