import RuleEngine.Value.Equality

/-!
# Notices

What an operation lets the outside know besides its result: log entries and events delivered to the
observer, oldest first.
-/

namespace RuleEngine

/-- The weight of a log entry. -/
inductive LogLevel where
  | debug
  | info
  | warning
  | error
  | critical
  deriving DecidableEq, Repr

def LogLevel.name : LogLevel → String
  | debug => "debug"
  | info => "info"
  | warning => "warning"
  | error => "error"
  | critical => "critical"

/-- Something that happened, with what was measured and what it is about. -/
structure Event where
  name : String
  measurements : List (Value × Value)
  metadata : List (Value × Value)
  deriving Repr

/-- A log entry or a delivered event. -/
inductive Notice where
  | logged (level : LogLevel) (entry : String)
  | delivered (event : Event)
  deriving Repr

end RuleEngine
