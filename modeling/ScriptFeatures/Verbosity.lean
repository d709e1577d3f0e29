/-!
How much is logged: a scale from 0, everything, to 5, only what went wrong.
-/

namespace ScriptFeatures

inductive LogLevel
  | trace
  | debug
  | info
  | warn
  | error
  deriving DecidableEq, Repr

def LogLevel.ofVerbosity (n : Nat) : LogLevel :=
  match n with
  | 0 => .trace
  | 1 => .debug
  | 2 => .info
  | 3 => .warn
  | _ => .error

def LogLevel.name : LogLevel → String
  | .trace => "TRACE"
  | .debug => "DEBUG"
  | .info => "INFO"
  | .warn => "WARN"
  | .error => "ERROR"

end ScriptFeatures
