/-!
# Log records

A record has a level, a message and named fields. Records are data: a run
returns them in the order they arose, and whoever runs it shows the levels of
interest.
-/

namespace JvmReach.Log

inductive Level where
  | trace
  | debug
  | info
  | warn
deriving DecidableEq, Inhabited

def Level.text : Level → String
  | trace => "TRACE"
  | debug => "DEBUG"
  | info => "INFO"
  | warn => "WARN"

inductive Value where
  | text (value : String)
  | count (value : Nat)
deriving DecidableEq, Inhabited

structure Record where
  level : Level
  message : String
  fields : List (String × Value) := []
deriving DecidableEq, Inhabited

/-- Whether a record is at least informational. -/
def Record.isNotable (r : Record) : Bool :=
  r.level == .info || r.level == .warn

end JvmReach.Log
