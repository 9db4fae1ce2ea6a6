/-!
# Log records

What a program has to say beside its results is collected as a list of records, so that every
operation stays a function.
-/

namespace Plotter

/-- How serious a record is. -/
inductive LogLevel where
  /-- Of interest only when looking for a fault. -/
  | debug
  /-- Something that the user should know. -/
  | warning
  /-- Something that should not have happened. -/
  | error
deriving DecidableEq, Repr

/-- The name of a level. -/
def LogLevel.name : LogLevel → String
  | .debug => "DEBUG"
  | .warning => "WARNING"
  | .error => "ERROR"

/-- A record of a log. -/
structure LogRecord where
  /-- How serious the record is. -/
  level : LogLevel
  /-- What it says. -/
  message : String
deriving DecidableEq, Repr

end Plotter
