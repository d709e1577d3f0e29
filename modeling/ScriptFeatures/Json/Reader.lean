import ScriptFeatures.Json.Shape
import ScriptFeatures.Json.Scan

/-!
Reading JSON of a given shape from left to right, one character at a time.
The state holds the containers that are open, innermost first, and what may
come next. The first problem in the text is the one reported: a scalar of the
wrong type is read to its end before it is refused, a container of the wrong
type is refused at its bracket.

Nothing here recurses on the text or on the nesting, so a text may nest as
deep as it likes unless a limit is set.
-/

namespace ScriptFeatures.Json.Reader

/-- A container that is open, with what has been read of it, latest first. -/
inductive Frame
  | list (element : Shape) (read : List Value)
  | tuple (size : Nat) (todo : List Shape) (read : List Value)
  | row (name : String) (required optional : List (String × Shape))
      (todo : List (String × Shape)) (read : Members)
  | object (read : Members) (name : String)
  | record (required optional : List (String × Shape)) (read : Members) (name : Option String)
  | ignoredList
  | ignoredObject
  deriving Repr

/-- What may come next between two tokens. -/
inductive Await
  /-- An element; the list may end here if it is the first. -/
  | element (shape : Shape) (first : Bool)
  /-- A comma with a further element of the shape, or the end of the list. -/
  | separator (next : Shape)
  /-- The end of a list all of whose places are filled. -/
  | rowEnd
  | afterRowComma
  /-- A member's name; the object may end here if it is the first. -/
  | name (first ignored : Bool)
  | colon (shape : Shape)
  | value (shape : Shape)
  /-- A comma with a further member, or the end of the object. -/
  | memberEnd (ignored : Bool)
  deriving Repr

inductive Scalar
  | word (rest : List Char) (value : Value)
  | number (n : NumberScan)
  | string (s : StringScan)
  deriving Repr

inductive Focus
  | await (a : Await)
  | scalar (shape : Shape) (s : Scalar)
  | name (ignored : Bool) (s : StringScan)
  | done (v : Value)
  deriving Repr

structure State where
  stack : List Frame
  focus : Focus
  deriving Repr

def State.start (shape : Shape) : State := ⟨[], .await (.value shape)⟩

def isSpace (c : Char) : Bool := c == ' ' || c == '\t' || c == '\n' || c == '\r'

/-! ### Values that are complete -/

/-- Hands a complete value to the container it stands in. -/
def complete (stack : List Frame) (v : Value) : State :=
  match stack with
  | [] => ⟨[], .done v⟩
  | .list element read :: rest =>
    ⟨.list element (v :: read) :: rest, .await (.separator element)⟩
  | .tuple size todo read :: rest =>
    match todo.tail with
    | [] => ⟨.tuple size [] (v :: read) :: rest, .await .rowEnd⟩
    | next :: more =>
      ⟨.tuple size (next :: more) (v :: read) :: rest, .await (.separator next)⟩
  | .row name required optional todo read :: rest =>
    let read := match todo with
      | (member, _) :: _ => (member, v) :: read
      | [] => read
    match todo.tail with
    | [] => ⟨.row name required optional [] read :: rest, .await .rowEnd⟩
    | next :: more =>
      ⟨.row name required optional (next :: more) read :: rest, .await (.separator next.2)⟩
  | .object read name :: rest =>
    ⟨.object (read.put name v) name :: rest, .await (.memberEnd false)⟩
  | .record required optional read name :: rest =>
    let read := match name with
      | some name => (name, v) :: read
      | none => read
    ⟨.record required optional read none :: rest, .await (.memberEnd false)⟩
  | .ignoredList :: rest => ⟨.ignoredList :: rest, .await (.separator .ignored)⟩
  | .ignoredObject :: rest => ⟨.ignoredObject :: rest, .await (.memberEnd true)⟩

/-- The members of a record in their order, optional ones filled in. -/
def assemble (required optional : List (String × Shape)) (read : Members) : Except Error Value :=
  match required.find? fun (name, _) => (read.get? name).isNone with
  | some (name, _) => .error (.missingMember name)
  | none =>
    .ok (.object ((required ++ optional).map fun (name, _) =>
      (name, (read.get? name).getD (.array []))))

def Frame.close : Frame → Except Error Value
  | .list _ read => .ok (.array read.reverse)
  | .tuple size todo read =>
    if todo.isEmpty then .ok (.array read.reverse)
    else .error (.wrongLength read.length (tupleExpected size))
  | .row name required optional _ read =>
    if read.length < required.length then
      .error (.wrongLength read.length (rowExpected name (required.length + optional.length)))
    else assemble required optional read
  | .object read _ => .ok (.object read.reverse)
  | .record required optional read _ => assemble required optional read
  | .ignoredList | .ignoredObject => .ok .null

def close : List Frame → Except Error State
  | [] => .error .trailingText
  | frame :: rest => complete rest <$> frame.close

/-! ### Values that begin -/

def isFull (limit : Option Nat) (stack : List Frame) : Bool :=
  match limit with
  | some n => n ≤ stack.length
  | none => false

def enter (limit : Option Nat) (stack : List Frame) (frame : Frame) (a : Await) :
    Except Error State :=
  if isFull limit stack then .error .nestedTooDeep else .ok ⟨frame :: stack, .await a⟩

def openList (limit : Option Nat) (stack : List Frame) (shape : Shape) : Except Error State :=
  match shape with
  | .any => enter limit stack (.list .any []) (.element .any true)
  | .list element => enter limit stack (.list element []) (.element element true)
  | .tuple places =>
    enter limit stack (.tuple places.length places []) (.element (places.headD .any) true)
  | .record name required optional =>
    let todo := required ++ optional
    enter limit stack (.row name required optional todo [])
      (.element ((todo.map (·.2)).headD .any) true)
  | .ignored => .ok ⟨.ignoredList :: stack, .await (.element .ignored true)⟩
  | .string | .natural _ => .error (.wrongType .list shape.expected)

def openObject (limit : Option Nat) (stack : List Frame) (shape : Shape) : Except Error State :=
  match shape with
  | .any => enter limit stack (.object [] "") (.name true false)
  | .record _ required optional =>
    enter limit stack (.record required optional [] none) (.name true false)
  | .ignored => .ok ⟨.ignoredObject :: stack, .await (.name true true)⟩
  | .string | .natural _ | .list _ | .tuple _ => .error (.wrongType .object shape.expected)

def begin (limit : Option Nat) (stack : List Frame) (shape : Shape) (c : Char) :
    Except Error State :=
  let scalar s := .ok ⟨stack, .scalar shape s⟩
  if c == '"' then scalar (.string .start)
  else if c == '-' || c.isDigit then scalar (.number (.start c))
  else if c == 'n' then scalar (.word ['u', 'l', 'l'] .null)
  else if c == 't' then scalar (.word ['r', 'u', 'e'] (.bool true))
  else if c == 'f' then scalar (.word ['a', 'l', 's', 'e'] (.bool false))
  else if c == '[' then openList limit stack shape
  else if c == '\x7b' then openObject limit stack shape
  else .error .noValue

/-! ### Names -/

def named (stack : List Frame) (name : String) : Except Error State :=
  match stack with
  | .object read _ :: rest => .ok ⟨.object read name :: rest, .await (.colon .any)⟩
  | .record required optional read _ :: rest =>
    match (required ++ optional).lookup name with
    | some shape =>
      if (read.get? name).isSome then .error (.repeatedMember name)
      else .ok ⟨.record required optional read (some name) :: rest, .await (.colon shape)⟩
    | none => .ok ⟨.record required optional read none :: rest, .await (.colon .ignored)⟩
  | stack => .ok ⟨stack, .await (.colon .ignored)⟩

/-! ### Steps -/

def Await.step (limit : Option Nat) (stack : List Frame) (a : Await) (c : Char) :
    Except Error State :=
  match a with
  | .element shape first =>
    if c == ']' && first then close stack
    else if c == ']' && !shape.isIgnored then .error .trailingComma
    else begin limit stack shape c
  | .separator next =>
    if c == ',' then .ok ⟨stack, .await (.element next false)⟩
    else if c == ']' then close stack
    else .error .noListSeparator
  | .rowEnd =>
    if c == ']' then close stack
    else if c == ',' then .ok ⟨stack, .await .afterRowComma⟩
    else .error .trailingText
  | .afterRowComma => .error (if c == ']' then .trailingComma else .trailingText)
  | .name first ignored =>
    if c == '"' then .ok ⟨stack, .name ignored .start⟩
    else if c == '\x7d' && first then close stack
    else if c == '\x7d' && !ignored then .error .trailingComma
    else .error .nameNotText
  | .colon shape => if c == ':' then .ok ⟨stack, .await (.value shape)⟩ else .error .noColon
  | .value shape => begin limit stack shape c
  | .memberEnd ignored =>
    if c == ',' then .ok ⟨stack, .await (.name false ignored)⟩
    else if c == '\x7d' then close stack
    else .error .noMemberSeparator

/-- A scalar is complete where a value of the shape is asked for. -/
def accept (stack : List Frame) (shape : Shape) (v : Value) : Except Error State :=
  complete stack <$> shape.accept v

def settled (limit : Option Nat) (st : State) (c : Char) : Except Error State :=
  if isSpace c then .ok st
  else match st.focus with
  | .await a => a.step limit st.stack c
  | _ => .error .trailingText

def step (limit : Option Nat) (st : State) (c : Char) : Except Error State :=
  match st.focus with
  | .await _ | .done _ => settled limit st c
  | .name ignored s =>
    match s.step ignored c with
    | .error e => .error e
    | .ok (some s) => .ok ⟨st.stack, .name ignored s⟩
    | .ok none => named st.stack s.text
  | .scalar shape (.string s) =>
    match s.step shape.isIgnored c with
    | .error e => .error e
    | .ok (some s) => .ok ⟨st.stack, .scalar shape (.string s)⟩
    | .ok none => accept st.stack shape (.string s.text)
  | .scalar shape (.word rest v) =>
    match rest with
    | [] => .error .misspelledWord
    | [d] => if c == d then accept st.stack shape v else .error .misspelledWord
    | d :: rest =>
      if c == d then .ok ⟨st.stack, .scalar shape (.word rest v)⟩ else .error .misspelledWord
  | .scalar shape (.number n) =>
    match n.step shape.isIgnored c with
    | .error e => .error e
    | .ok (some n) => .ok ⟨st.stack, .scalar shape (.number n)⟩
    | .ok none =>
      match n.finish shape.isIgnored with
      | .error e => .error e
      | .ok v =>
        match accept st.stack shape (.number v) with
        | .error e => .error e
        | .ok st => settled limit st c

def run (limit : Option Nat) (st : State) : List Char → Except Error State
  | [] => .ok st
  | c :: cs =>
    match step limit st c with
    | .error e => .error e
    | .ok st => run limit st cs

/-! ### The end of the text -/

def Await.atEnd : Await → Error
  | .element _ first => .endOfText (if first then .list else .value)
  | .separator _ | .rowEnd => .endOfText .list
  | .afterRowComma => .trailingText
  | .name first ignored => .endOfText (if first || ignored then .object else .value)
  | .colon _ | .memberEnd _ => .endOfText .object
  | .value _ => .endOfText .value

def Focus.atEnd : Focus → Except Error Value
  | .done v => .ok v
  | .await a => .error a.atEnd
  | .name .. | .scalar _ (.string _) => .error (.endOfText .string)
  | .scalar _ (.word ..) | .scalar _ (.number _) => .error (.endOfText .value)

def finish (st : State) : Except Error Value :=
  match st.focus with
  | .scalar shape (.number n) => do
    let v ← n.finish shape.isIgnored
    (← accept st.stack shape (.number v)).focus.atEnd
  | focus => focus.atEnd

end Reader

/-- Reads a text as one value of the shape, nested less deep than the limit. -/
def read (limit : Option Nat) (shape : Shape) (text : String) : Except Error Value :=
  match Reader.run limit (.start shape) text.toList with
  | .error e => .error e
  | .ok st => Reader.finish st

end ScriptFeatures.Json
