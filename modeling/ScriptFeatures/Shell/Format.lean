/-!
What `echo` and `printf` make of their arguments: escapes are read, and the
directives of a format take one argument each.
-/

namespace ScriptFeatures.Shell

def isOctal (c : Char) : Bool := '0' ≤ c && c ≤ '7'

def escapeLetters : List (Char × Char) :=
  [('a', '\x07'), ('b', '\x08'), ('e', '\x1b'), ('f', '\x0c'), ('n', '\n'), ('r', '\r'),
    ('t', '\t'), ('v', '\x0b'), ('\\', '\\')]

/-- What a backslash in front of a text stands for, and how much of the text
belongs to it. Up to three octal digits give a byte. -/
def unescape (cs : List Char) : Char × Nat :=
  let digits := (cs.take 3).takeWhile isOctal
  if digits.isEmpty then
    match cs.head?.bind (escapeLetters.lookup ·) with
    | some c => (c, 1)
    | none => ('\\', 0)
  else (Char.ofNat (digits.foldl (fun n d => n * 8 + (d.toNat - '0'.toNat)) 0 % 256), digits.length)

/-- The text that `echo` says, given how many characters are dealt with, and
whether an escape ends all output. A zero may stand in front of octal digits. -/
def spoken (skip : Nat) : List Char → List Char × Bool
  | [] => ([], false)
  | c :: cs =>
    match skip with
    | skip + 1 => spoken skip cs
    | 0 =>
      if c != '\\' then
        let (said, ended) := spoken 0 cs
        (c :: said, ended)
      else if cs.head? == some 'c' then ([], true)
      else
        let zeros := if cs.head? == some '0' && cs[1]?.any isOctal then 1 else 0
        let (meant, length) := unescape (cs.drop zeros)
        let (said, ended) := spoken (zeros + length) cs
        (meant :: said, ended)

def echoed (arguments : List String) : String :=
  let (words, mark) := match arguments with
    | "-n" :: words => (words, [])
    | words => (words, ['\n'])
  let (said, ended) := spoken 0 (" ".intercalate words).toList
  String.ofList (said ++ if ended then [] else mark)

/-! ### Formats -/

structure Directive where
  flags : List Char
  width : Nat
  precision : Option Nat
  letter : Char

def natOf (digits : List Char) : Nat := (String.ofList digits).toNat?.getD 0

def directiveAt (cs : List Char) : Directive × Nat :=
  let (flags, rest) := cs.span ("-+ #0".contains ·)
  let (width, rest) := rest.span Char.isDigit
  let (precision, rest) := match rest with
    | '.' :: rest =>
      let (digits, rest) := rest.span Char.isDigit
      (some (natOf digits), rest)
    | _ => (none, rest)
  (⟨flags, natOf width, precision, rest.headD '\x00'⟩, cs.length - rest.length + 1)

def Directive.padded (d : Directive) (body : List Char) : List Char :=
  let gap := d.width - body.length
  if d.flags.contains '-' then body ++ List.replicate gap ' '
  else if d.flags.contains '0' && d.letter != 's' then List.replicate gap '0' ++ body
  else List.replicate gap ' ' ++ body

def leadingNumber (s : String) : Int × Option String :=
  let (sign, cs) := match s.toList with
    | '-' :: cs => ((-1 : Int), cs)
    | '+' :: cs => (1, cs)
    | cs => (1, cs)
  let (digits, rest) := cs.span Char.isDigit
  (sign * (natOf digits : Int),
    if digits.isEmpty && !s.isEmpty then some (s ++ ": expected numeric value")
    else if rest.isEmpty then none else some (s ++ ": not completely converted"))

structure Printed where
  said : List Char := []
  /-- Complaints that do not end the printing. -/
  complaints : List String := []
  /-- The complaint that ends it. -/
  failure : Option String := none
  rest : List String := []

/-- What a directive makes of an argument, unless there is no such directive. -/
def Directive.print? (d : Directive) (argument : String) : Option (List Char × Option String) :=
  let (n, complaint) := leadingNumber argument
  match d.letter with
  | 's' => some (argument.toList.take (d.precision.getD argument.length), none)
  | 'b' => some ((spoken 0 argument.toList).1, none)
  | 'c' => some (argument.toList.take 1, none)
  | 'd' | 'i' => some ((toString n).toList, complaint)
  | 'u' => some ((toString n.toNat).toList, complaint)
  | 'o' => some (Nat.toDigits 8 n.toNat, complaint)
  | 'x' => some (Nat.toDigits 16 n.toNat, complaint)
  | 'X' => some ((Nat.toDigits 16 n.toNat).map Char.toUpper, complaint)
  | _ => none

/-- One pass over a format, given how many of its characters are dealt with. -/
def printOnce (skip : Nat) (p : Printed) : List Char → Printed
  | [] => p
  | c :: cs =>
    match skip with
    | skip + 1 => printOnce skip p cs
    | 0 =>
      if c == '\\' then
        let (meant, length) := unescape cs
        printOnce length { p with said := meant :: p.said } cs
      else if c != '%' then printOnce 0 { p with said := c :: p.said } cs
      else if cs.head? == some '%' then printOnce 1 { p with said := '%' :: p.said } cs
      else
        let (d, length) := directiveAt cs
        match d.print? (p.rest.headD "") with
        | some (body, complaint) =>
          printOnce length { p with
            said := (d.padded body).reverse ++ p.said
            complaints := p.complaints ++ complaint.toList
            rest := p.rest.drop 1 } cs
        | none =>
          { p with failure := some (if cs.length < length then "missing format character"
              else "%" ++ String.ofList (cs.take length) ++ ": invalid directive") }

def printPasses (format : List Char) (p : Printed) : Nat → Printed
  | 0 => p
  | passes + 1 =>
    let printed := printOnce 0 p format
    if printed.failure.isSome || printed.rest.isEmpty || printed.rest.length == p.rest.length
    then printed else printPasses format printed passes

/-- What `printf` prints; what is said comes last character first. -/
def printFormat (format : String) (arguments : List String) : Printed :=
  printPasses format.toList { rest := arguments } (arguments.length + 1)

def Printed.text (p : Printed) : String := String.ofList p.said.reverse

end ScriptFeatures.Shell
