/-
  Placement/Log.lean
  ==================
  **Log lines.**
-/

namespace Placement

/-- How much a log line matters. -/
inductive Level
  | error
  | warn
  | info
  | debug
  | trace
  deriving DecidableEq

/-- The name of a level as logs show it. -/
def Level.name : Level → String
  | .error => "ERROR"
  | .warn => "WARN"
  | .info => "INFO"
  | .debug => "DEBUG"
  | .trace => "TRACE"

/-- One line of a log. -/
structure LogLine where
  level : Level
  message : String
  deriving DecidableEq

end Placement
