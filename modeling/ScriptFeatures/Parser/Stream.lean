/-!
The documents that a parser prints in a row. Line breaks are left out first;
what remains is cut at the delimiter, at the leftmost place each time.
-/

namespace ScriptFeatures.Stream

/-- The blocks of a text, given the characters of the block under way, latest
first. At a delimiter the rest of it is skipped. -/
def cut (delimiter : List Char) (skip : Nat) (block : List Char) : List Char → List (List Char)
  | [] => [block.reverse]
  | c :: cs =>
    match skip with
    | skip + 1 => cut delimiter skip block cs
    | 0 =>
      if delimiter.isPrefixOf (c :: cs) then
        block.reverse :: cut delimiter (delimiter.length - 1) [] cs
      else cut delimiter 0 (c :: block) cs

/-- The blocks between the places where the delimiter stands. An empty one
stands before, between and after all characters. -/
def splitOn (delimiter text : List Char) : List (List Char) :=
  if delimiter.isEmpty then [] :: text.map ([·]) ++ [[]] else cut delimiter 0 [] text

def blocks (text delimiter : String) : List String :=
  (splitOn delimiter.toList (text.toList.filter (· != '\n'))).map String.ofList

end ScriptFeatures.Stream
