import Plotter.Expression.Basic
import Plotter.Log
import Plotter.Sampling.Grid

/-!
# Sampled curves

An expression is evaluated at every point of a grid. A value that is not finite breaks the curve, so
a curve is a list of unbroken segments. If the expression has no value, the curve is empty and a
record says why.
-/

namespace Plotter

/-- A point of the plane. -/
structure Point where
  /-- The coordinate on the horizontal axis. -/
  x : Float
  /-- The coordinate on the vertical axis. -/
  y : Float
deriving DecidableEq

/-- Whether a point can be drawn. -/
def Point.isVisible (p : Point) : Bool := p.y.isFinite

/-- A curve in unbroken segments. -/
structure Curve where
  /-- The segments from left to right. -/
  segments : List (List Point)
  /-- The number of points of the grid. -/
  total : Nat
  /-- The number of points of the grid where there is nothing to draw. -/
  skipped : Nat
  /-- Why the expression has no value. -/
  error : Option EvalError := none
deriving DecidableEq

namespace Curve

/-- Whether there is nothing to draw. -/
def isEmpty (c : Curve) : Bool := c.segments.isEmpty

/-- All points of the curve, without regard to the breaks. -/
def points (c : Curve) : List Point := c.segments.flatten

/-- Puts a finished segment in front, unless it has no points. -/
def consSegment (segment : List Point) (segments : List (List Point)) : List (List Point) :=
  if segment.isEmpty then segments else segment :: segments

/-- Adds a point to the left: the segment that it may extend comes apart from the finished ones. -/
def addPoint (p : Point) (parts : List Point × List (List Point)) :
    List Point × List (List Point) :=
  if p.isVisible then (p :: parts.1, parts.2) else ([], consSegment parts.1 parts.2)

/-- The maximal runs of visible points. -/
def segmentsOf (ps : List Point) : List (List Point) :=
  let (first, rest) := ps.foldr addPoint ([], [])
  consSegment first rest

/-- The curve through points that may or may not be visible. -/
def ofPoints (ps : List Point) : Curve :=
  { segments := segmentsOf ps
    total := ps.length
    skipped := ps.countP (!·.isVisible) }

/-- The curve of an expression without a value. -/
def failed (total : Nat) (e : EvalError) : Curve :=
  { segments := [], total, skipped := total, error := some e }

end Curve

namespace Expression

/-- The point of the graph at a place on the horizontal axis. -/
def pointAt (e : Expression) (x : Float) : Except EvalError Point :=
  (e.evaluateAt x).map (⟨x, ·⟩)

/-- The record about an expression that cannot be drawn. A missing variable is a mistake of the
user, an unsound program one of the program that made it. -/
def failureRecord (e : Expression) (error : EvalError) : LogRecord :=
  match error with
  | .unbound _ => ⟨.warning, "Cannot plot " ++ Text.quoted e.source ++ ": " ++ error.message⟩
  | .malformed _ =>
    ⟨.error, "Malformed program for " ++ Text.quoted e.source ++ " (" ++ e.text ++ "): " ++
      error.message⟩

/-- The curve of an expression over a grid, and the records about it. -/
def sample (e : Expression) (g : Grid) : Curve × List LogRecord :=
  match g.points.mapM e.pointAt with
  | .ok points => (.ofPoints points, [])
  | .error error => (.failed g.points.length error, [e.failureRecord error])

end Expression

end Plotter
