/-!
Commands of the shell as they are written. A word is a list of parts, and what
a part stands for is found out when its command runs.
-/

namespace ScriptFeatures.Shell

/-- What is done to the value of a parameter. The flags of the middle four say
whether an empty value counts as none. -/
inductive Change
  | unchanged
  | length
  | orElse (emptyToo : Bool)
  | orAssign (emptyToo : Bool)
  | orFail (emptyToo : Bool)
  | ifGiven (emptyToo : Bool)
  | withoutFront (longest : Bool)
  | withoutBack (longest : Bool)

inductive Part
  | text (quoted : Bool) (s : String)
  | parameter (quoted : Bool) (name : String) (change : Change) (argument : List Part)
  /-- What some commands print. -/
  | output (quoted : Bool) (commands : String)
  | sum (quoted : Bool) (expression : List Part)

abbrev Word := List Part

def Part.isQuoted : Part → Bool
  | .text quoted _ | .parameter quoted .. | .output quoted _ | .sum quoted _ => quoted

inductive RedirectKind
  | read
  | write
  | append
  /-- The target is the number of another descriptor. -/
  | copy
  /-- The target is what is read. -/
  | document

structure Redirect where
  kind : RedirectKind
  descriptor : Nat
  target : Word

inductive Command
  | empty
  | simple (line : Nat) (assigned : List (String × Word)) (words : List Word)
      (redirects : List Redirect)
  | redirected (line : Nat) (body : Command) (redirects : List Redirect)
  | sequence (first second : Command)
  | both (first second : Command)
  | either (first second : Command)
  | negated (body : Command)
  | pipe (first second : Command)
  | subshell (body : Command)
  | branch (condition yes no : Command)
  /-- Goes on while the condition holds, or until it does. -/
  | loop (untilHolds : Bool) (condition body : Command)
  /-- Without values, those are the arguments. -/
  | each (line : Nat) (name : String) (values : Option (List Word)) (body : Command)
  | choice (line : Nat) (subject : Word) (arms : List (List Word × Command))
  | define (name : String) (body : Command)

def Command.isEmpty : Command → Bool
  | .empty => true
  | _ => false

end ScriptFeatures.Shell
