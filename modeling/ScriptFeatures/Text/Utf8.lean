/-!
What is wrong with bytes that are not UTF-8. A fault is the first place
where no character can be read: either bytes that no continuation can mend,
or the beginning of a character cut off by the end.
-/

namespace ScriptFeatures.Text.Utf8

/-- The bytes that may follow a lead byte in second place, and how many
bytes follow it in all. -/
def following (lead : UInt8) : Option (UInt8 × UInt8 × Nat) :=
  if lead < 0x80 then some (0x80, 0xBF, 0)
  else if lead < 0xC2 then none
  else if lead < 0xE0 then some (0x80, 0xBF, 1)
  else if lead == 0xE0 then some (0xA0, 0xBF, 2)
  else if lead == 0xED then some (0x80, 0x9F, 2)
  else if lead < 0xF0 then some (0x80, 0xBF, 2)
  else if lead == 0xF0 then some (0x90, 0xBF, 3)
  else if lead < 0xF4 then some (0x80, 0xBF, 3)
  else if lead == 0xF4 then some (0x80, 0x8F, 3)
  else none

inductive Front
  | character (length : Nat)
  | malformed (length : Nat)
  | incomplete

/-- Reads `more` further bytes, `length` being read; the next one has to lie
between `low` and `high`, those after it are plain continuation bytes. -/
def continuation (low high : UInt8) (length : Nat) : Nat → List UInt8 → Front
  | 0, _ => .character length
  | _ + 1, [] => .incomplete
  | more + 1, b :: bytes =>
    if low ≤ b ∧ b ≤ high then continuation 0x80 0xBF (length + 1) more bytes
    else .malformed length

def front (lead : UInt8) (bytes : List UInt8) : Front :=
  match following lead with
  | none => .malformed 1
  | some (low, high, more) => continuation low high 1 more bytes

structure Fault where
  index : Nat
  /-- How many bytes are malformed; `none` when the end cuts a character off. -/
  length : Option Nat
  deriving DecidableEq, Repr

def Fault.message (f : Fault) : String :=
  match f.length with
  | some n => "invalid utf-8 sequence of " ++ toString n ++ " bytes from index " ++ toString f.index
  | none => "incomplete utf-8 byte sequence from index " ++ toString f.index

/-- The first fault; `pending` bytes of a character already read are passed
over. -/
def firstFault (index pending : Nat) : List UInt8 → Option Fault
  | [] => none
  | b :: bytes =>
    match pending with
    | pending + 1 => firstFault (index + 1) pending bytes
    | 0 =>
      match front b bytes with
      | .character length => firstFault (index + 1) (length - 1) bytes
      | .malformed length => some ⟨index, some length⟩
      | .incomplete => some ⟨index, none⟩

def fault? (bytes : ByteArray) : Option Fault := firstFault 0 0 bytes.data.toList

def replacement : List UInt8 := [0xEF, 0xBF, 0xBD]

/-- Every fault is replaced by the replacement character; `keep` bytes are
copied and `drop` bytes left out before the next character is read. -/
def mend (keep drop : Nat) : List UInt8 → List UInt8
  | [] => []
  | b :: bytes =>
    match keep, drop with
    | keep + 1, _ => b :: mend keep drop bytes
    | 0, drop + 1 => mend 0 drop bytes
    | 0, 0 =>
      match front b bytes with
      | .character length => b :: mend (length - 1) 0 bytes
      | .malformed length => replacement ++ mend 0 (length - 1) bytes
      | .incomplete => replacement

def decodeLossy (bytes : ByteArray) : String :=
  (String.fromUTF8? ⟨(mend 0 0 bytes.data.toList).toArray⟩).getD ""

end ScriptFeatures.Text.Utf8
