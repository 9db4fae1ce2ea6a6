import Plotter.Double.Basic

/-!
# The shortest decimal that reads back

Among the decimals that round to a given double, the one with the fewest digits is chosen, and of
several such the nearest to the double. The search is exact: all bounds are integers over a common
denominator.
-/

namespace Plotter.Double

/-- The reals that round to a positive double, together with the double itself, all over the same
denominator. -/
structure RoundingInterval where
  /-- The common denominator. -/
  den : Nat
  /-- The numerator of the double. -/
  value : Nat
  /-- The numerator of the lower end. -/
  low : Nat
  /-- The numerator of the upper end. -/
  high : Nat
  /-- Whether the ends round to the double as well. -/
  closed : Bool

/-- The rounding interval of a positive magnitude. It reaches half a unit up and half a unit down;
below a power of two the units are half as large, except among the subnormal numbers. The ends
belong to it if the significand is even. -/
def Magnitude.interval (m : Magnitude) : RoundingInterval :=
  let unit := natPow 2 m.exponent
  let below := if m.significand = Nat.pow 2 52 ∧ -1074 < m.exponent then unit else 2 * unit
  let value := 4 * m.significand * unit
  { den := 4 * natPow 2 (-m.exponent)
    value := value
    low := value - below
    high := value + 2 * unit
    closed := m.significand % 2 = 0 }

/-- Whether `n * 10 ^ place` lies in the interval. -/
def RoundingInterval.holds (i : RoundingInterval) (place : Int) (n : Nat) : Bool :=
  let point := n * natPow 10 place * i.den
  let scale := natPow 10 (-place)
  if i.closed then i.low * scale ≤ point ∧ point ≤ i.high * scale
  else i.low * scale < point ∧ point < i.high * scale

/-- The multiple of `10 ^ place` in the interval that is nearest to the double, as a coefficient; of
two equally near the even one. Only the neighbours of the double on this grid can qualify. -/
def RoundingInterval.onGrid? (i : RoundingInterval) (place : Int) : Option Nat :=
  let num := i.value * natPow 10 (-place)
  let den := i.den * natPow 10 place
  let lower := num / den
  match i.holds place lower, i.holds place (lower + 1) with
  | true, true => some (roundDiv num den)
  | true, false => some lower
  | false, true => some (lower + 1)
  | false, false => none

/-- The decimal place of the leading digit of `num / den`: the greatest `d` with
`10 ^ d ≤ num / den`. The binary logarithm gives it up to one or two places. -/
def leadingPlace (num den : Nat) : Int :=
  let guess := (floorLog2 num den * 30103).fdiv 100000 - 1
  [guess + 2, guess + 1].find? (fun d => den * natPow 10 d ≤ num * natPow 10 (-d)) |>.getD guess

/-- The decimal digits of a positive double: `digits`, the first of them at the decimal place
`exponent` and none of the last ones zero. -/
structure Decimal where
  /-- The digit characters, most significant first. -/
  digits : List Char
  /-- The power of ten of the leading digit. -/
  exponent : Int

/-- The decimal with the given coefficient whose last digit stands at `place`. -/
def Decimal.ofGrid (coefficient : Nat) (place : Int) : Decimal :=
  let digits := Nat.toDigits 10 coefficient
  { digits := (digits.reverse.dropWhile (· = '0')).reverse
    exponent := place + digits.length - 1 }

/-- The shortest decimal that rounds to the positive magnitude, found on the first grid of 1, 2,
… 17 digits that has a point in the rounding interval. Seventeen digits tell all doubles apart, so
the search never ends without a hit; the exact value stands in for the impossible case. -/
def shortest (m : Magnitude) : Decimal :=
  let interval := m.interval
  let top := leadingPlace interval.value interval.den
  let hit := (List.range 17).findSome? fun n =>
    let place := top - (n : Nat)
    (interval.onGrid? place).map (Decimal.ofGrid · place)
  hit.getD (.ofGrid (m.significand * natPow 2 m.exponent) 0)

/-- The digits before and after the point of a decimal in positional notation. A part without
digits of its own is empty. -/
def Decimal.positional (d : Decimal) : List Char × List Char :=
  if d.exponent < 0 then ([], List.replicate (-d.exponent - 1).toNat '0' ++ d.digits)
  else
    let whole := d.exponent.toNat + 1
    (d.digits.take whole ++ List.replicate (whole - d.digits.length) '0', d.digits.drop whole)

/-- Scientific notation: one digit, the others after a point, and the power of ten with a sign and
at least two digits. -/
def Decimal.scientific (d : Decimal) : List Char :=
  let power := Nat.toDigits 10 d.exponent.natAbs
  d.digits.take 1 ++ (if d.digits.length > 1 then ['.'] else []) ++ d.digits.drop 1 ++
    ['e', if d.exponent < 0 then '-' else '+'] ++ List.replicate (2 - power.length) '0' ++ power

/-- The text of a double: shortest digits, in positional notation if the leading digit stands at a
place from `10 ^ -4` to `10 ^ 15` and in scientific notation otherwise. In positional notation a
whole number is followed by `wholeSuffix`. -/
def textWith (wholeSuffix : String) (x : Float) : String :=
  if x.isNaN then "nan"
  else
    let sign := if signBit x then "-" else ""
    if x.isInf then sign ++ "inf"
    else
      let m := magnitude x
      if m.significand = 0 then sign ++ "0" ++ wholeSuffix
      else
        let d := shortest m
        if -4 ≤ d.exponent ∧ d.exponent < 16 then
          let (whole, fraction) := d.positional
          sign ++ (if whole = [] then "0" else String.ofList whole) ++
            (if fraction = [] then wholeSuffix else "." ++ String.ofList fraction)
        else sign ++ String.ofList d.scientific

/-- The text of a double that shows that it is one: a whole number ends in `.0`. -/
def text (x : Float) : String := textWith ".0" x

/-- The text of a double as a number in a formula: a whole number has no point. -/
def plainText (x : Float) : String := textWith "" x

end Plotter.Double
