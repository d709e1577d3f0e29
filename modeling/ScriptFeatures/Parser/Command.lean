import ScriptFeatures.Config
import ScriptFeatures.Path

/-!
The command that runs the parser on one source, and where the parser leaves
its document.
-/

namespace ScriptFeatures

structure Command where
  program : String
  arguments : List String
  deriving DecidableEq, Repr

/-- What the parser is given in place of a file to make it print. -/
def printTarget : String := "1"

/-- The command for a source; without a target the parser prints. -/
def Command.parse (c : ParserConfig) (input : String) (target : Option String) : Command :=
  ⟨c.program, [c.script, input, target.getD printTarget]⟩

/-- Where the document of a single source goes: a name that ends in `.js` gets
the other ending, any other name has it appended. -/
def defaultJsonPath (input : String) : String :=
  if Path.extension? input = some "js" then Path.withExtension input "json"
  else input ++ ".json"

/-- Where the document of a source goes in a directory of documents. The whole
name is kept, so that different names never share a file. -/
def jsonPathIn (directory input : String) : String :=
  Path.join directory ((Path.fileName? input).getD "ast" ++ ".json")

end ScriptFeatures
