import Plotter.Expression.Basic
import Plotter.Log

/-!
# Editing sessions

A session follows the edits of one formula. It holds the program that is drawn at the moment and the
outcome of the last edit. A text is compiled only if it differs from that of the edit before. While
a formula is being typed most texts do not compile; the settings tell whether the last good program
stays or is dropped in that case.
-/

namespace Plotter

/-- What happens to the current program when a new text does not compile. -/
inductive Retention where
  /-- The last good program stays. -/
  | keepLast
  /-- There is no program any more. -/
  | clear
deriving DecidableEq, Repr

namespace Retention

/-- The name of a policy. -/
def name : Retention → String
  | .keepLast => "keep_last"
  | .clear => "clear"

/-- The policy of a name. -/
def ofName? : String → Option Retention
  | "keep_last" => some .keepLast
  | "clear" => some .clear
  | _ => none

end Retention

/-- The settings of a session. -/
structure SessionSettings where
  /-- What happens when a text does not compile. -/
  retention : Retention := .keepLast
  /-- The greatest number of characters of a text; a longer one is not even scanned. -/
  maxLength : Int := 1000
deriving DecidableEq, Repr

/-- The outcome of an edit. -/
structure Outcome where
  /-- The new text. -/
  source : String
  /-- The program after the edit; it may be that of an earlier text. -/
  compiled : Option Expression
  /-- Why the new text does not compile. -/
  error : Option CompileError
  /-- Whether the text was compiled, as opposed to recognised as unchanged. -/
  recompiled : Bool
  /-- A note on what was done. -/
  details : String
deriving DecidableEq

/-- Whether the text compiles. -/
def Outcome.ok (o : Outcome) : Bool := o.error.isNone

/-- An editing session. -/
structure Session where
  /-- The settings, which never change. -/
  settings : SessionSettings := {}
  /-- The current program. -/
  compiled : Option Expression := none
  /-- The outcome of the last edit. -/
  last : Option Outcome := none
deriving DecidableEq

namespace Session

/-- Compiles a text of admissible length. -/
def compileWithin (settings : SessionSettings) (source : String) :
    Except CompileError Expression :=
  if settings.maxLength < source.length then .error (.tooLong settings.maxLength)
  else Expression.compile source

/-- The outcome of compiling a new text, and the records about it. -/
def recompile (s : Session) (source : String) : Outcome × List LogRecord :=
  match compileWithin s.settings source with
  | .ok e =>
    ({ source, compiled := some e, error := none, recompiled := true,
       details := "compiled: " ++ e.text }, [])
  | .error e =>
    let compiled := match s.settings.retention with
      | .keepLast => s.compiled
      | .clear => none
    ({ source, compiled, error := some e, recompiled := true,
       details := "compile failed (" ++ e.kind ++ "), policy=" ++ s.settings.retention.name },
     [⟨.debug, "Compile failed for " ++ Text.quoted source ++ ": " ++ e.message⟩])

/-- The outcome of an edit, and the records about it. An unchanged text keeps its error and the
current program. -/
def outcome (s : Session) (source : String) : Outcome × List LogRecord :=
  match s.last with
  | some last =>
    if last.source = source then
      ({ source, compiled := s.compiled, error := last.error, recompiled := false,
         details := "unchanged source: compilation skipped" }, [])
    else s.recompile source
  | none => s.recompile source

/-- The session after an edit, and the records about it. -/
def update (s : Session) (source : String) : Session × List LogRecord :=
  let (outcome, log) := s.outcome source
  ({ s with compiled := outcome.compiled, last := some outcome }, log)

/-- The value of the current program at a point; without a program there is no number. -/
def evaluate (s : Session) (x : Float) : Except EvalError Float :=
  match s.compiled with
  | some e => e.evaluateAt x
  | none => .ok Double.nan

end Session

end Plotter
