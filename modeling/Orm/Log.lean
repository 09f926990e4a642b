/-
What the library reports while it works: spans that open and events, each with a level, a target and
named fields.
-/

namespace Orm

inductive Level where
  | error
  | warn
  | info
  | debug
  | trace
  deriving DecidableEq, Repr

def Level.name : Level → String
  | .error => "ERROR"
  | .warn => "WARN"
  | .info => "INFO"
  | .debug => "DEBUG"
  | .trace => "TRACE"

inductive LogField where
  | text (s : String)
  | count (n : Nat)
  deriving DecidableEq, Repr

structure LogEntry where
  /-- A span that opens, rather than an event. -/
  span : Bool := false
  level : Level
  target : String
  message : String
  fields : List (String × LogField)
  deriving DecidableEq, Repr

abbrev Log := List LogEntry

end Orm
