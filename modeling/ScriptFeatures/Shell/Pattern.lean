/-!
Patterns with a star, a question mark and sets of characters. Quoted characters
of a pattern stand for themselves.
-/

namespace ScriptFeatures.Shell

/-- The characters of a field, and whether each is quoted. -/
abbrev Field := List (Char × Bool)

namespace Field

def text (f : Field) : String := String.ofList (f.map (·.1))

def ofText (quoted : Bool) (s : String) : Field := s.toList.map (·, quoted)

end Field

inductive Wildcard
  | anything
  | one (accepts : Char → Bool)

def inSet (c : Char) : Field → Bool
  | (first, _) :: ('-', false) :: (last, _) :: set => (first ≤ c && c ≤ last) || inSet c set
  | (d, _) :: set => c == d || inSet c set
  | [] => false

def bracket? (p : Field) : Option ((Char → Bool) × Nat) :=
  let set := p.takeWhile fun (c, quoted) => c != ']' || quoted
  if set.length = p.length then none
  else match set with
    | ('!', false) :: excluded => some (fun c => !inSet c excluded, set.length + 1)
    | _ => some (fun c => inSet c set, set.length + 1)

def wildcards (skip : Nat) : Field → List Wildcard
  | [] => []
  | (c, quoted) :: p =>
    match skip with
    | skip + 1 => wildcards skip p
    | 0 =>
      if quoted then .one (· == c) :: wildcards 0 p
      else if c == '*' then .anything :: wildcards 0 p
      else if c == '?' then .one (fun _ => true) :: wildcards 0 p
      else match if c == '[' then bracket? p else none with
        | some (accepts, length) => .one accepts :: wildcards length p
        | none => .one (· == c) :: wildcards 0 p

def fits : List Wildcard → List Char → Bool
  | [], cs => cs.isEmpty
  | .anything :: p, cs => (List.range (cs.length + 1)).any fun n => fits p (cs.drop n)
  | .one _ :: _, [] => false
  | .one accepts :: p, c :: cs => accepts c && fits p cs

namespace Field

def isPattern (f : Field) : Bool := f.any fun (c, quoted) => !quoted && "*?[".contains c

/-- Whether a text fits a field as a pattern. -/
def accepts (f : Field) (s : String) : Bool := fits (wildcards 0 f) s.toList

def cutFront (f : Field) (longest : Bool) (s : String) : String :=
  let cs := s.toList
  let lengths := List.range (cs.length + 1)
  let fitting := (if longest then lengths.reverse else lengths).find? fun n =>
    fits (wildcards 0 f) (cs.take n)
  String.ofList (cs.drop (fitting.getD 0))

def cutBack (f : Field) (longest : Bool) (s : String) : String :=
  let cs := s.toList
  let lengths := List.range (cs.length + 1)
  let fitting := (if longest then lengths else lengths.reverse).find? fun n =>
    fits (wildcards 0 f) (cs.drop n)
  String.ofList (cs.take (fitting.getD cs.length))

end Field

end ScriptFeatures.Shell
