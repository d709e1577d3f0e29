import ScriptFeatures.Json.Reader

/-!
Reading documents one behind the other. A list, an object or a string shows
itself where it ends, so that the next document may begin at once. Behind a
number or a word must stand a space or a character that is part of neither.
-/

namespace ScriptFeatures.Json

namespace Reader

/-- Whether a number outside all containers ends in front of a character. -/
def endsBefore (st : State) (c : Char) : Bool :=
  match st.stack, st.focus with
  | [], .scalar shape (.number n) =>
    match n.step shape.isIgnored c with
    | .ok none => true
    | _ => false
  | _, _ => false

/-- Reads the value under way to its end, and gives what stands behind it. -/
def readFront (limit : Option Nat) (st : State) : List Char → Except Error (Value × List Char)
  | [] => (·, []) <$> finish st
  | c :: cs =>
    if endsBefore st c then (·, c :: cs) <$> finish st
    else match step limit st c with
    | .error e => .error e
    | .ok st =>
      match st.focus with
      | .done v => .ok (v, cs)
      | _ => readFront limit st cs

theorem length_of_readFront {limit : Option Nat} {st : State} {cs rest : List Char} {v : Value}
    (h : readFront limit st cs = .ok (v, rest)) : rest.length ≤ cs.length := by
  have hfinish {cs : List Char} {r : Except Error Value} (hr : (·, cs) <$> r = .ok (v, rest)) :
      rest.length ≤ cs.length := by
    cases r with
    | error e => contradiction
    | ok w =>
      have hrest : cs = rest := (Prod.mk.inj (Except.ok.inj hr)).2
      exact Nat.le_of_eq (congrArg List.length hrest.symm)
  induction cs generalizing st with
  | nil => exact hfinish h
  | cons c cs ih =>
    rw [readFront] at h
    split at h
    · exact hfinish h
    · split at h
      · contradiction
      · split at h
        · rw [← (Prod.mk.inj (Except.ok.inj h)).2]
          exact Nat.le_succ _
        · exact Nat.le_succ_of_le (ih h)

theorem length_lt_of_readFront {limit : Option Nat} {shape : Shape} {cs rest : List Char}
    {v : Value} (h : readFront limit (.start shape) cs = .ok (v, rest)) :
    rest.length < cs.length := by
  cases cs with
  | nil => contradiction
  | cons c cs =>
    have hgoes : endsBefore (.start shape) c = false := rfl
    rw [readFront, hgoes] at h
    simp only [Bool.false_eq_true, if_false] at h
    split at h
    · contradiction
    · split at h
      · rw [← (Prod.mk.inj (Except.ok.inj h)).2]
        exact Nat.lt_succ_self _
      · exact Nat.lt_succ_of_le (length_of_readFront h)

def endsItself (c : Char) : Bool := c == '[' || c == '\x7b' || c == '"'

/-- Whether a character may stand right behind any value. -/
def mayFollow (c : Char) : Bool :=
  isSpace c || c == '"' || c == '[' || c == ']' || c == '\x7b' || c == '\x7d' || c == ',' ||
    c == ':'

def next? (limit : Option Nat) (shape : Shape) (text : List Char) :
    Except Error (Option (Value × List Char)) :=
  match text.dropWhile isSpace with
  | [] => .ok none
  | c :: cs =>
    match readFront limit (.start shape) (c :: cs) with
    | .error e => .error e
    | .ok (v, rest) =>
      if endsItself c || rest.head?.all mayFollow then .ok (some (v, rest))
      else .error .trailingText

theorem length_of_next? {limit : Option Nat} {shape : Shape} {text rest : List Char} {v : Value}
    (h : next? limit shape text = .ok (some (v, rest))) : rest.length < text.length := by
  have hshorter : (text.dropWhile isSpace).length ≤ text.length :=
    (List.dropWhile_suffix isSpace).length_le
  rw [next?] at h
  split at h
  · cases h
  · next c cs htext =>
    rw [htext] at hshorter
    split at h
    · contradiction
    · next hread =>
      split at h
      · rw [← (Prod.mk.inj (Option.some.inj (Except.ok.inj h))).2]
        exact Nat.lt_of_lt_of_le (length_lt_of_readFront hread) hshorter
      · contradiction

def readAllFrom (limit : Option Nat) (shape : Shape) (text : List Char) :
    Except Error (List Value) :=
  match _ : next? limit shape text with
  | .error e => .error e
  | .ok none => .ok []
  | .ok (some (v, rest)) => (v :: ·) <$> readAllFrom limit shape rest
  termination_by text.length
  decreasing_by exact length_of_next? ‹_›

end Reader

/-- Reads a text as any number of values of the shape, nested less deep than
the limit. -/
def readAll (limit : Option Nat) (shape : Shape) (text : String) : Except Error (List Value) :=
  Reader.readAllFrom limit shape text.toList

end ScriptFeatures.Json
