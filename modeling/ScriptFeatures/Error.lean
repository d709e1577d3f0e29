/-!
What can go wrong with one source file, its store or the configuration. A
failure of one file leaves the other files of a corpus alone.
-/

namespace ScriptFeatures

inductive Error
  /-- The parser failed on a source, or its output could not be used. -/
  | noTree (path reason : String)
  /-- A literal node has neither a typed value nor a regular expression. -/
  | untypedLiteral (raw : String)
  | unclassified (kind : String)
  /-- A tree that is complete, or has nodes already, was to be grown again. -/
  | rootReused (kind : String)
  | file (path reason : String)
  | configuration (reason : String)
  | store (reason : String)
  deriving DecidableEq, Repr

def Error.message : Error → String
  | .noTree path reason => "parser could not produce an AST for " ++ path ++ ": " ++ reason
  | .untypedLiteral raw => "literal " ++ raw ++ " has an unknown type"
  | .unclassified kind => "node kind `" ++ kind ++ "` has no category mapping"
  | .rootReused kind =>
    "tree root " ++ kind ++ " has already been built; a fresh root is required per build"
  | .file path reason => "I/O error on " ++ path ++ ": " ++ reason
  | .configuration reason => "configuration error: " ++ reason
  | .store reason => "feature store error: " ++ reason

end ScriptFeatures
