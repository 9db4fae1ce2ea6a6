import Plotter.Token.Basic

/-!
# Products without a sign

Two factors that stand side by side are multiplied, as in `2x`, `2(x + 1)` or `(x)(x)`. The sign
that the user left out is put between them.
-/

namespace Plotter.Infix

/-- Whether an operand can end with the token. -/
def endsOperand : Token → Bool
  | .number _ | .var _ | .rightParen => true
  | _ => false

/-- Whether the token begins an operand and may follow another one directly. -/
def startsFactor : Token → Bool
  | .var _ | .function _ | .leftParen => true
  | _ => false

/-- Whether a product is meant between two neighbouring tokens. A number may follow a variable but
not another number or a parenthesis. -/
def impliesProduct : Token → Token → Bool
  | .var _, .number _ => true
  | s, t => endsOperand s && startsFactor t

/-- Puts a multiplication sign wherever a product is meant. -/
def insertProducts : List Token → List Token
  | s :: t :: rest =>
    if impliesProduct s t then s :: Token.times :: insertProducts (t :: rest)
    else s :: insertProducts (t :: rest)
  | ts => ts

end Plotter.Infix
