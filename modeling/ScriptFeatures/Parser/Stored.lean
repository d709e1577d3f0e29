import ScriptFeatures.Parser.Run

/-!
A parser that only hands out documents that were made before. They stand in a
directory of their own, each at the path of its source.
-/

namespace ScriptFeatures.Parser

def documentDirectory : String := "documents"

def storedPath (input : String) : String := documentDirectory ++ "/" ++ input ++ ".json"

def refuse (reason : String) : Outcome := .ended (.code 1) ByteArray.empty reason.toUTF8

/-- Prints the document of a source, or copies it to the target. -/
def stored : Parser := fun c t =>
  match c.arguments with
  | [_, input, target] =>
    match t.read (storedPath input) with
    | .error e => (refuse (storedPath input ++ ": " ++ e.message), t)
    | .ok content =>
      if target == printTarget then (.ended (.code 0) content ByteArray.empty, t)
      else match t.write target content with
      | .ok t => (.ended (.code 0) ByteArray.empty ByteArray.empty, t)
      | .error e => (refuse (target ++ ": " ++ e.message), t)
  | _ => (refuse "a source and a target are needed", t)

end ScriptFeatures.Parser
