import Plotter.Double.Basic

/-!
# Decimal numerals

A numeral is a run of digits with at most one point, and optionally a power of ten. It is read as
an exact decimal value, which is then rounded once to the nearest double.
-/

namespace Plotter

/-- The decimal value `coefficient * 10 ^ exponent`. -/
structure Numeral where
  /-- The digits of the numeral, without the point, as one number. -/
  coefficient : Nat
  /-- The power of ten. -/
  exponent : Int

namespace Numeral

/-- Whether a character is one of the ten ASCII digits. -/
def isDigit (c : Char) : Bool := '0' ≤ c && c ≤ '9'

/-- The number that a run of digits denotes. -/
def ofDigits (digits : List Char) : Nat :=
  digits.foldl (fun n c => 10 * n + (c.toNat - '0'.toNat)) 0

/-- Reads what follows the digits: nothing, or `e` with an optional sign and a power of ten. -/
def exponent? : List Char → Option Int
  | [] => some 0
  | mark :: rest =>
    if mark = 'e' ∨ mark = 'E' then
      let (negative, digits) := match rest with
        | '-' :: r => (true, r)
        | '+' :: r => (false, r)
        | r => (false, r)
      if digits ≠ [] ∧ digits.all isDigit then
        some (if negative then -(ofDigits digits : Int) else ofDigits digits)
      else none
    else none

/-- Reads an unsigned numeral: digits with at most one point and at least one digit, then
optionally a power of ten. -/
def ofChars? (cs : List Char) : Option Numeral :=
  let whole := cs.takeWhile isDigit
  let (fraction, rest) := match cs.dropWhile isDigit with
    | '.' :: r => (r.takeWhile isDigit, r.dropWhile isDigit)
    | r => ([], r)
  if whole ++ fraction = [] then none
  else (exponent? rest).map fun e => ⟨ofDigits (whole ++ fraction), e - fraction.length⟩

/-- The double nearest to the value. A magnitude that is certainly beyond the greatest double, or
certainly below half the least one, is decided by its exponent, so that no huge power of ten is
computed: with `b` the binary logarithm of the coefficient, the coefficient lies between
`10 ^ (3 * b / 10)` and `10 ^ (31 * (b + 1) / 100 + 1)`. -/
def toFloat (n : Numeral) : Float :=
  if n.coefficient = 0 then 0
  else
    let b : Int := n.coefficient.log2
    if n.exponent + 3 * b / 10 > 310 then Double.infinity
    else if n.exponent + 31 * (b + 1) / 100 + 1 < -330 then 0
    else
      Double.nearest (n.coefficient * Double.natPow 10 n.exponent)
        (Double.natPow 10 (-n.exponent))

/-- Reads a number with an optional sign: a numeral, or one of the words `inf`, `infinity` and
`nan` in any case. -/
def signed? (cs : List Char) : Option Float :=
  let (negative, body) := match cs with
    | '-' :: r => (true, r)
    | '+' :: r => (false, r)
    | r => (false, r)
  let word := String.ofList (body.map Char.toLower)
  let magnitude :=
    if word = "inf" ∨ word = "infinity" then some Double.infinity
    else if word = "nan" then some Double.nan
    else (ofChars? body).map toFloat
  magnitude.map fun x => if negative then -x else x

end Numeral

end Plotter
