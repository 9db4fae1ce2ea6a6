import Plotter.Double.Shortest
import Plotter.Operator

/-!
# Tokens

A token is the smallest meaningful part of a formula. Names and symbols are arbitrary texts, since a
program may come from outside; whether they denote something is found out when it is checked.
-/

namespace Plotter

/-- A part of a formula. -/
inductive Token where
  /-- A number. -/
  | number (value : Float)
  /-- A variable, to be bound when the formula is evaluated. -/
  | var (name : String)
  /-- A function of one argument; negation is one of them. -/
  | function (name : String)
  /-- A binary operator. -/
  | operator (symbol : String)
  /-- An opening parenthesis. -/
  | leftParen
  /-- A closing parenthesis. -/
  | rightParen
deriving DecidableEq

namespace Token

/-- The operator that stands between juxtaposed factors. -/
def times : Token := .operator "*"

/-- The minus sign, as an operator. -/
def minus : Token := .operator "-"

/-- The minus sign before an operand. -/
def negation : Token := .function negationName

/-- The text of a token. -/
def text : Token → String
  | .number value => Double.plainText value
  | .var name => name
  | .function name => name
  | .operator symbol => symbol
  | .leftParen => "("
  | .rightParen => ")"

/-- The text of a list of tokens, separated by spaces. -/
def listText (ts : List Token) : String := " ".intercalate (ts.map text)

/-- Equality of meaning: as equality, but numbers are compared by value, so the two zeros agree and
the value that is no number differs from itself. -/
def agrees : Token → Token → Bool
  | .number a, .number b => a == b
  | s, t => s = t

/-- Equality of meaning of two lists of tokens. -/
def listAgrees : List Token → List Token → Bool
  | [], [] => true
  | s :: ss, t :: ts => s.agrees t && listAgrees ss ts
  | _, _ => false

/-- The number of tokens of different meaning. -/
def countDistinct (ts : List Token) : Nat :=
  (ts.foldl (fun seen t => if seen.any t.agrees then seen else t :: seen) []).length

end Token

end Plotter
