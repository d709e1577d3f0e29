import ScriptFeatures.Shell.Grammar

/-!
Reading commands. A script is read and run line by line, where a line goes on
for as long as its commands do; so a fault in a later line does not keep the
earlier ones from running.
-/

namespace ScriptFeatures.Shell

structure Fault where
  message : String
  /-- How many lines end before the fault. -/
  line : Nat

/-- What is left of a script, and the number of the line it begins in. -/
structure Source where
  rest : List Char
  line : Nat := 1

abbrev Reader := StateT Source (Except Fault)

def peek : Reader (List Char) := return (← get).rest

def take (n : Nat) : Reader (List Char) := do
  let s ← get
  let (taken, rest) := s.rest.splitAt n
  set { rest, line := s.line + taken.count '\n' : Source }
  return taken

def takeWhile (p : Char → Bool) : Reader (List Char) := do
  take ((← peek).takeWhile p).length

def faultOf (message : String) : Reader α := do
  throw ⟨"Syntax error: " ++ message, (← get).line⟩

/-! ### Tokens -/

/-- How many characters do not matter: blanks, comments and joined lines, where
asked also the ends of lines. -/
def blanks (lines comment : Bool) : List Char → Nat
  | [] => 0
  | c :: cs =>
    if comment && c != '\n' then 1 + blanks lines true cs
    else if c == '#' then 1 + blanks lines true cs
    else if c == ' ' || c == '\t' || lines && c == '\n' then 1 + blanks lines false cs
    else
      match c, cs with
      | '\\', '\n' :: cs => 2 + blanks lines false cs
      | _, _ => 0

def skipBlanks : Reader Unit := do
  let _ ← take (blanks false false (← peek))

def skipLines : Reader Unit := do
  let _ ← take (blanks true false (← peek))

def isBreak (c : Char) : Bool := " \t\n;&|<>()".contains c

def wordAt (cs : List Char) : String := String.ofList (cs.takeWhile (!isBreak ·))

def operators : List String := ["&&", "||", ";;", ";", "&", "|", "<", ">", "(", ")"]

def operator? (cs : List Char) : Option String := operators.find? (·.toList.isPrefixOf cs)

/-- Words that end a list of commands where a command could begin. -/
def closers : List String := ["then", "else", "elif", "fi", "do", "done", "esac", "\x7d"]

def openers : List String := ["if", "while", "until", "for", "case", "\x7b", "!", "in"]

def unexpected (expected : Option String) : Reader α := do
  skipBlanks
  let cs ← peek
  let word := wordAt cs
  let found := match cs, operator? cs with
    | [], _ => "end of file"
    | '\n' :: _, _ => "newline"
    | _, some operator => "\"" ++ operator ++ "\""
    | _, none => if (closers ++ openers).contains word then "\"" ++ word ++ "\"" else "word"
  faultOf (found ++ " unexpected" ++
    expected.elim "" fun token => " (expecting \"" ++ token ++ "\")")

def accept (token : String) : Reader Bool := do
  skipBlanks
  let cs ← peek
  if (operator? cs).getD (wordAt cs) != token then return false
  let _ ← take token.length
  return true

def acceptAfterLines (token : String) : Reader Bool := do
  skipLines
  accept token

def expect (token : String) : Reader Unit := do
  if !(← acceptAfterLines token) then unexpected (some token)

/-! ### Words -/

inductive Ending
  | word
  | quote
  | brace
  | nothing
  deriving DecidableEq

def Ending.isAt (e : Ending) (c : Char) : Bool :=
  match e with
  | .word => isBreak c
  | .quote => c == '"'
  | .brace => c == '\x7d'
  | .nothing => false

/-- Whether blanks and apostrophes are plain text. -/
def Ending.isQuoted (e : Ending) : Bool := e == .quote || e == .nothing

def isNameChar (c : Char) : Bool := c.isAlphanum || c == '_'

def nameAt (braced : Bool) (cs : List Char) : List Char :=
  match cs with
  | c :: _ =>
    if isNameChar c && (braced || !c.isDigit) then cs.takeWhile isNameChar
    else if c.isDigit || "@*#?$!-".contains c then [c] else []
  | [] => []

/-- What is open in a text of commands: parentheses, choices, whose patterns
end in a parenthesis of their own, and a quote. -/
structure Open where
  parentheses : Nat := 0
  choices : Nat := 0
  quote : Option Char := none
  /-- Whether a word can begin here. -/
  atWord : Bool := true

/-- What is open behind a character; nothing if it closes the whole text. -/
def Open.after? (o : Open) (c : Char) (cs : List Char) : Option Open :=
  match o.quote with
  | some q => some { o with quote := if c == q then none else o.quote, atWord := false }
  | none =>
    if c == '\x27' || c == '"' then some { o with quote := some c, atWord := false }
    else if c == '(' then some { o with parentheses := o.parentheses + 1, atWord := true }
    else if c == ')' then
      if o.parentheses > 0 then some { o with parentheses := o.parentheses - 1, atWord := true }
      else if o.choices > 0 then some { o with atWord := true }
      else none
    else
      let word := wordAt (c :: cs)
      let choices :=
        if o.atWord && word == "case" then o.choices + 1
        else if o.atWord && word == "esac" then o.choices - 1
        else o.choices
      some { o with choices, atWord := isBreak c }

def enclosed (o : Open) : List Char → Option (List Char)
  | [] => none
  | '\\' :: c :: cs =>
    let o := if o.quote == some '\x27' && c == '\x27' then { o with quote := none } else o
    (enclosed { o with atWord := false } cs).map ('\\' :: c :: ·)
  | c :: cs =>
    match o.after? c cs with
    | none => some []
    | some o => (enclosed o cs).map (c :: ·)

/-- The text up to a backquote, without the backslashes that protect others. -/
def backquoted : List Char → Option (List Char × Nat)
  | [] => none
  | '\\' :: c :: cs =>
    (backquoted cs).map fun (text, n) =>
      (if c == '\\' || c == '\x60' || c == '$' then c :: text else '\\' :: c :: text, n + 2)
  | c :: cs =>
    if c == '\x60' then some ([], 1) else (backquoted cs).map fun (text, n) => (c :: text, n + 1)

def changes : List (String × Change) :=
  [(":-", .orElse true), ("-", .orElse false), (":=", .orAssign true), ("=", .orAssign false),
    (":?", .orFail true), ("?", .orFail false), (":+", .ifGiven true), ("+", .ifGiven false),
    ("##", .withoutFront true), ("#", .withoutFront false), ("%%", .withoutBack true),
    ("%", .withoutBack false)]

def within (cs : List Char) (read : Reader α) : Reader α := do
  let outer ← get
  set { outer with rest := cs }
  let a ← read
  set outer
  return a

def dollarPart (parts : Ending → Reader (List Part)) (quoted : Bool) : Reader Part := do
  let cs ← peek
  match cs with
  | '(' :: '(' :: inner =>
    match enclosed {} inner with
    | none => faultOf "Missing '))'"
    | some expression =>
      let _ ← take (expression.length + 3)
      if (← take 1) != [')'] then faultOf "Missing '))'"
      return .sum quoted (← within expression (parts .nothing))
  | '(' :: inner =>
    match enclosed {} inner with
    | none =>
      let _ ← take cs.length
      unexpected (some ")")
    | some commands =>
      let _ ← take (commands.length + 2)
      return .output quoted (String.ofList commands)
  | '\x7b' :: inner =>
    let isLength := inner.head? == some '#'
      && inner[1]?.any fun c => isNameChar c || "@*?".contains c
    let _ ← take (if isLength then 2 else 1)
    let name := nameAt true (← peek)
    let _ ← take name.length
    let cs ← peek
    let found := changes.find? fun (mark, _) => mark.toList.isPrefixOf cs
    let (mark, change) := if isLength then ("", .length) else found.getD ("", .unchanged)
    let _ ← take mark.length
    let argument ← parts .brace
    let _ ← take 1
    return .parameter quoted (String.ofList name) change argument
  | cs =>
    let name := nameAt false cs
    let _ ← take name.length
    return if name.isEmpty then .text quoted "$"
      else .parameter quoted (String.ofList name) .unchanged []

def part (parts : Ending → Reader (List Part)) (e : Ending) : Reader (List Part) := do
  let quoted := e.isQuoted
  match ← peek with
  | '\\' :: c :: _ =>
    if quoted && !"$\x60\"\\\n".contains c || e == .nothing && c == '"' then
      let _ ← take 1
      return [.text true "\\"]
    let _ ← take 2
    return if c == '\n' then [] else [.text true c.toString]
  | '$' :: _ =>
    let _ ← take 1
    return [← dollarPart parts quoted]
  | '\x60' :: cs =>
    match backquoted cs with
    | none => faultOf "EOF in backquote substitution"
    | some (commands, n) =>
      let _ ← take (n + 1)
      return [.output quoted (String.ofList commands)]
  | '\x27' :: _ =>
    let _ ← take 1
    if quoted then return [.text true "'"]
    let text ← takeWhile (· != '\x27')
    if (← take 1).isEmpty then faultOf "Unterminated quoted string"
    return [.text true (String.ofList text)]
  | '"' :: _ =>
    let _ ← take 1
    if quoted then return [.text true "\""]
    let inner ← parts .quote
    let _ ← take 1
    return if inner.isEmpty then [.text true ""] else inner
  | _ =>
    let plain ← takeWhile fun c => !e.isAt c && !"\\$\x60'\"".contains c
    let plain ← if plain.isEmpty then take 1 else pure plain
    return [.text quoted (String.ofList plain)]

/-- The parts up to the end of a text; that end is not taken. -/
def parts (e : Ending) : Nat → Reader (List Part)
  | 0 => return []
  | n + 1 => do
    match ← peek with
    | [] =>
      match e with
      | .quote => faultOf "Unterminated quoted string"
      | .brace => faultOf "Missing '\x7d'"
      | _ => return []
    | c :: _ =>
      if e.isAt c then return []
      let first ← part (fun e => parts e n) e
      return first ++ (← parts e n)

/-- As many steps as the text has characters are enough, since each takes one. -/
def readParts (e : Ending) : Reader (List Part) := do
  parts e ((← peek).length + 1)

def plainText (w : Word) : String :=
  String.join (w.map fun
    | .text _ s => s
    | _ => "")

/-! ### Redirections -/

def redirectMarks : List (String × RedirectKind × Nat) :=
  [("<<-", .document, 0), ("<<", .document, 0), (">>", .append, 1), (">&", .copy, 1),
    ("<&", .copy, 0), (">|", .write, 1), ("<", .read, 0), (">", .write, 1)]

/-- The lines up to a mark, without their tabs where asked, and how long they
and the mark are. -/
def linesBefore (tabs : Bool) (mark : List Char) : List Char → Nat → List Char × Nat
  | _, 0 => ([], 0)
  | cs, steps + 1 =>
    let line := cs.takeWhile (· != '\n')
    let shown := if tabs then line else line.dropWhile (· == '\t')
    if shown == mark || cs.isEmpty then ([], line.length)
    else
      let (text, n) := linesBefore tabs mark (cs.drop (line.length + 1)) steps
      (shown ++ '\n' :: text, line.length + 1 + n)

/-- Takes the document that stands behind the line out of the text. -/
def readDocument (tabs : Bool) (mark : Word) : Reader Word := do
  let s ← get
  let line := s.rest.takeWhile (· != '\n')
  let below := s.rest.drop (line.length + 1)
  let (document, n) := linesBefore tabs (plainText mark).toList below below.length
  set { s with rest := line ++ below.drop n }
  if mark.any (·.isQuoted) then return [.text true (String.ofList document)]
  within document (readParts .nothing)

def redirect? : Reader (Option Redirect) := do
  skipBlanks
  let cs ← peek
  let (digit, cs) := match cs with
    | d :: '<' :: cs => if d.isDigit then ([d], '<' :: cs) else ([], d :: '<' :: cs)
    | d :: '>' :: cs => if d.isDigit then ([d], '>' :: cs) else ([], d :: '>' :: cs)
    | cs => ([], cs)
  match redirectMarks.find? fun (mark, _) => mark.toList.isPrefixOf cs with
  | none => return none
  | some (mark, kind, usual) =>
    let _ ← take (digit.length + mark.length)
    skipBlanks
    let target ← readParts .word
    if target.isEmpty then unexpected none
    let target ← match kind with
      | .document => readDocument (mark != "<<-") target
      | _ => pure target
    return some ⟨kind, (digit.head?.map fun d => d.toNat - '0'.toNat).getD usual, target⟩

def redirects : Nat → Reader (List Redirect)
  | 0 => return []
  | n + 1 => do
    match ← redirect? with
    | none => return []
    | some r => return r :: (← redirects n)

/-! ### Commands -/

structure Pieces where
  assigned : List (String × Word) := []
  words : List Word := []
  redirects : List Redirect := []

def pieces (p : Pieces) : Nat → Reader Pieces
  | 0 => return p
  | n + 1 => do
    match ← redirect? with
    | some r => pieces { p with redirects := p.redirects ++ [r] } n
    | none =>
      let cs ← peek
      let name := cs.takeWhile isNameChar
      if cs.head?.all isBreak then return p
      else if p.words.isEmpty && !name.isEmpty && !name.head?.any Char.isDigit
          && cs[name.length]? == some '=' then
        let _ ← take (name.length + 1)
        let value ← readParts .word
        pieces { p with assigned := p.assigned ++ [(String.ofList name, value)] } n
      else
        let word ← readParts .word
        pieces { p with words := p.words ++ [word] } n

def simple : Reader Command := do
  let line := (← get).line
  let p ← pieces {} (← peek).length
  if p.assigned.isEmpty && p.words.isEmpty && p.redirects.isEmpty then unexpected none
  return .simple line p.assigned p.words p.redirects

def body (list : Reader Command) : Reader Command := do
  let c ← list
  if c.isEmpty then unexpected none
  return c

def branches (list : Reader Command) : Nat → Reader Command
  | 0 => unexpected none
  | n + 1 => do
    let condition ← body list
    expect "then"
    let yes ← body list
    if ← acceptAfterLines "elif" then return .branch condition yes (← branches list n)
    let no ← if ← accept "else" then body list else pure .empty
    expect "fi"
    return .branch condition yes no

def patterns : Nat → Reader (List Word)
  | 0 => unexpected (some ")")
  | n + 1 => do
    skipBlanks
    let pattern ← readParts .word
    if ← accept "|" then return pattern :: (← patterns n)
    if !(← accept ")") then unexpected (some ")")
    return [pattern]

def arms (list : Reader Command) : Nat → Reader (List (List Word × Command))
  | 0 => unexpected (some "esac")
  | n + 1 => do
    if ← acceptAfterLines "esac" then return []
    let _ ← accept "("
    let tests ← patterns (← peek).length
    let c ← list
    if ← acceptAfterLines ";;" then return (tests, c) :: (← arms list n)
    if !(← accept "esac") then unexpected (some ";;")
    return [(tests, c)]

def loopBody (list : Reader Command) : Reader Command := do
  expect "do"
  let c ← body list
  expect "done"
  return c

def words : Nat → Reader (List Word)
  | 0 => return []
  | n + 1 => do
    skipBlanks
    if (← peek).head?.all isBreak then return []
    let word ← readParts .word
    return word :: (← words n)

def eachLoop (list : Reader Command) : Reader Command := do
  let line := (← get).line
  skipBlanks
  let name ← takeWhile isNameChar
  let values ← if ← acceptAfterLines "in" then some <$> words (← peek).length else pure none
  let _ ← accept ";"
  return .each line (String.ofList name) values (← loopBody list)

/-- A command that has others in it, unless the next one is none. -/
def compound? (list : Reader Command) : Reader (Option Command) := do
  let steps := (← peek).length
  if ← accept "(" then
    let c ← body list
    expect ")"
    return some (.subshell c)
  if ← accept "\x7b" then
    let c ← body list
    expect "\x7d"
    return some c
  if ← accept "if" then return some (← branches list steps)
  if ← accept "while" then
    let condition ← body list
    return some (.loop false condition (← loopBody list))
  if ← accept "until" then
    let condition ← body list
    return some (.loop true condition (← loopBody list))
  if ← accept "for" then return some (← eachLoop list)
  if ← accept "case" then
    let line := (← get).line
    skipBlanks
    let subject ← readParts .word
    expect "in"
    return some (.choice line subject (← arms list steps))
  return none

def definedName? : Reader (Option String) := do
  let cs ← peek
  let name := cs.takeWhile isNameChar
  let after := cs.drop name.length
  let after := after.drop (blanks false false after)
  match name, after with
  | _ :: _, '(' :: after =>
    let gap := blanks false false after
    if (after.drop gap).head? != some ')' then return none
    let _ ← take (cs.length - after.length + gap + 1)
    return some (String.ofList name)
  | _, _ => return none

def command (list : Reader Command) : Reader Command := do
  skipBlanks
  if ("!" :: closers).contains (wordAt (← peek)) then unexpected none
  match ← definedName? with
  | some name =>
    skipLines
    match ← compound? list with
    | some c => return .define name c
    | none => unexpected none
  | none =>
    let line := (← get).line
    match ← compound? list with
    | some c =>
      match ← redirects (← peek).length with
      | [] => return c
      | rs => return .redirected line c rs
    | none => simple

def pipeline (list : Reader Command) : Nat → Reader Command
  | 0 => unexpected none
  | n + 1 => do
    let c ← command list
    if ← accept "|" then
      skipLines
      return .pipe c (← pipeline list n)
    return c

def joined (list : Reader Command) (c : Command) : Nat → Reader Command
  | 0 => return c
  | n + 1 => do
    let both ← accept "&&"
    let either ← if both then pure false else accept "||"
    if !both && !either then return c
    skipLines
    let negated ← accept "!"
    let next ← pipeline list n
    let next := if negated then .negated next else next
    joined list (if both then .both c next else .either c next) n

def andOr (list : Reader Command) : Reader Command := do
  let steps := (← peek).length + 1
  let negated ← accept "!"
  let first ← pipeline list steps
  joined list (if negated then .negated first else first) steps

/-- Commands one after the other, up to what cannot begin one; those of one
line, or of as many as come. -/
def list (oneLine : Bool) : Nat → Reader Command
  | 0 => return .empty
  | n + 1 => do
    if oneLine then skipBlanks else skipLines
    let cs ← peek
    if cs.head?.all (fun c => c == '\n' || c == ')') || (operator? cs) == some ";;"
        || closers.contains (wordAt cs) then return .empty
    let c ← andOr (list false n)
    let separated ← if ← accept ";" then pure true else accept "&"
    if separated || !oneLine && (← peek).head? == some '\n' then
      return .sequence c (← list oneLine n)
    return c

def readLine : Reader Command := do
  let c ← list true ((← peek).length + 1)
  skipBlanks
  match ← peek with
  | [] => return c
  | '\n' :: _ =>
    let _ ← take 1
    return c
  | _ => unexpected none

end ScriptFeatures.Shell
