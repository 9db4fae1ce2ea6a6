import Plotter.Elementary.Checked

/-!
# Total arithmetic

The operations of a formula are defined on all doubles. What has no real value becomes an infinity
or the value that is not a number, so that a curve has a gap there and no error arises.
-/

namespace Plotter.Total

/-- A function without faults: outside its domain the value is no number, and where it overflows it
is positive infinity. -/
def ofChecked (f : Float → Checked) (x : Float) : Float :=
  match f x with
  | .ok y => y
  | .error .domain => Double.nan
  | .error .overflow => Double.infinity

/-- The quotient. Division by a zero gives an infinity whose sign is the product of both signs, and
no number if the numerator is a zero or no number itself. -/
def divide (num den : Float) : Float :=
  if den == 0 then
    if num == 0 ∨ num.isNaN then Double.nan
    else Double.withSign (Double.signBit num != Double.signBit den) Double.infinity
  else num / den

/-- The natural logarithm, which is negative infinity at both zeros. -/
def log (x : Float) : Float :=
  if x == 0 then -Double.infinity else ofChecked Checked.log x

/-- The power. An overflow is negative for a negative base and an odd exponent; a negative power of
a zero is an infinity, negative for the negative zero and an odd exponent; a fractional power of a
negative number is no number. -/
def power (base exponent : Float) : Float :=
  match Checked.pow base exponent with
  | .ok y => y
  | .error .overflow =>
    Double.withSign (base < 0 ∧ Double.isOddInteger exponent) Double.infinity
  | .error .domain =>
    if base == 0 then
      Double.withSign (Double.signBit base ∧ Double.isOddInteger exponent) Double.infinity
    else Double.nan

end Plotter.Total
