import Plotter.Token.Basic

/-!
# The minus sign before an operand

A minus sign negates the operand to its right if no operand stands to its left: at the start, after
an opening parenthesis and after an operator. A negation counts neither as an operand nor as an
operator, so of two minus signs in a row only one negates.
-/

namespace Plotter.Infix

/-- Whether a minus sign directly after the token negates. -/
def admitsNegation : Token → Bool
  | .operator _ | .leftParen => true
  | _ => false

/-- Turns minus signs into negations; `initial` tells whether a minus sign in front would be one. -/
def markFrom (initial : Bool) : List Token → List Token
  | [] => []
  | t :: rest =>
    if initial = true ∧ t = Token.minus then Token.negation :: markFrom false rest
    else t :: markFrom (admitsNegation t) rest

/-- Turns every minus sign that stands before an operand into a negation. -/
def markNegations (ts : List Token) : List Token := markFrom true ts

end Plotter.Infix
