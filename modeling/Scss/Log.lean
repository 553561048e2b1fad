/-!
# Log events

What a run tells about its progress: a level and a message.
-/

namespace Scss

/-- How much an event matters. -/
inductive Level where
  /-- A step of the work. -/
  | trace
  /-- Something left out or passed over. -/
  | debug
  /-- Something its author should look at. -/
  | warn
  deriving DecidableEq, Repr

/-- The name of a level. -/
def Level.name : Level → String
  | trace => "TRACE"
  | debug => "DEBUG"
  | warn => "WARN"

/-- One event. -/
structure LogEvent where
  /-- How much it matters. -/
  level : Level
  /-- What happened. -/
  message : String
  deriving DecidableEq, Repr

end Scss
