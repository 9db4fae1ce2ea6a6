import Plotter.Elementary.Exponential
import Plotter.Elementary.Trigonometric

/-!
# Elementary functions with their faults

Each function rounds the exact value to the nearest double. It reports a fault where the value is
not a real number, and where it is beyond the greatest double although the argument is finite.
Arguments that are no numbers, and infinite ones where the limit exists, are no faults.
-/

namespace Plotter

/-- The way in which a function fails to give a real number in the range of the doubles. -/
inductive MathFault where
  /-- The function is not defined at the argument. -/
  | domain
  /-- The value is finite but greater in magnitude than every double. -/
  | overflow
deriving DecidableEq, Repr

/-- The result of a function that may fault. -/
abbrev Checked := Except MathFault Float

namespace Checked

/-- A rounded value, which is infinite only if the exact one is too large. -/
def ofRounded (x : Float) : Checked := if x.isInf then .error .overflow else .ok x

/-- Whether the magnitude is so small, less than `2 ^ -28`, that an odd function with slope one at
zero rounds to its argument: the cubic term is then less than half a unit in the last place. -/
def isTiny (x : Float) : Bool := x.abs < Float.ofBits 0x3E30000000000000

/-- The fixed-point value of a finite double; bits below the last unit are dropped. -/
def toFixed (x : Float) : Fixed :=
  let magnitude := Fixed.ofMagnitude (Double.magnitude x)
  if Double.signBit x then -magnitude else magnitude

/-- The exponential function. -/
def exp (x : Float) : Checked :=
  if x.isNaN then .ok x
  else if x.isInf then .ok (if Double.signBit x then 0 else x)
  else
    let t := toFixed x
    if t > Fixed.expLimit then .error .overflow
    else if t < -Fixed.expLimit then .ok 0
    else ofRounded t.exp.toFloat

/-- The hyperbolic sine. -/
def sinh (x : Float) : Checked :=
  if x.isNaN ∨ x.isInf ∨ isTiny x then .ok x
  else
    let t := toFixed x
    if t > Fixed.expLimit ∨ t < -Fixed.expLimit then .error .overflow
    else ofRounded ((t.exp.toFixed - (-t).exp.toFixed : Fixed).toFloat (-1))

/-- The hyperbolic cosine. -/
def cosh (x : Float) : Checked :=
  if x.isNaN then .ok x
  else if x.isInf then .ok x.abs
  else
    let t := toFixed x
    if t > Fixed.expLimit ∨ t < -Fixed.expLimit then .error .overflow
    else ofRounded ((t.exp.toFixed + (-t).exp.toFixed : Fixed).toFloat (-1))

/-- The natural logarithm; zero and the negative numbers are outside its domain. -/
def log (x : Float) : Checked :=
  if x.isNaN then .ok x
  else if x ≤ 0 then .error .domain
  else if x.isInf then .ok x
  else .ok ((Fixed.log (Double.magnitude x)).toFloat 0)

/-- The square root; the negative numbers are outside its domain. -/
def sqrt (x : Float) : Checked := if x < 0 then .error .domain else .ok x.sqrt

/-- Applies a function of the reduced angle to the magnitude of the argument and gives the result
the sign of the argument. Infinities are outside the domain. -/
def oddOfAngle (f : ReducedAngle → Fixed) (x : Float) : Checked :=
  if x.isInf then .error .domain
  else if x.isNaN ∨ isTiny x then .ok x
  else
    let value := f (ReducedAngle.ofMagnitude (Double.magnitude x))
    .ok (Fixed.toFloat (if Double.signBit x then -value else value) 0)

/-- The sine. -/
def sin (x : Float) : Checked := oddOfAngle ReducedAngle.sin x

/-- The tangent. -/
def tan (x : Float) : Checked := oddOfAngle ReducedAngle.tan x

/-- The cosine; it rounds to one at tiny arguments. -/
def cos (x : Float) : Checked :=
  if x.isInf then .error .domain
  else if x.isNaN then .ok x
  else if isTiny x then .ok 1
  else .ok ((ReducedAngle.ofMagnitude (Double.magnitude x)).cos.toFloat 0)

/-- The inverse sine of a number of magnitude at most one, with a sign. -/
def signedArcsin (x : Float) : Fixed :=
  let value := Fixed.arcsin (Fixed.ofMagnitude (Double.magnitude x))
  if Double.signBit x then -value else value

/-- The inverse sine; numbers of magnitude above one are outside its domain. -/
def asin (x : Float) : Checked :=
  if x.isNaN then .ok x
  else if x.abs > 1 then .error .domain
  else if isTiny x then .ok x
  else .ok ((signedArcsin x).toFloat 0)

/-- The inverse cosine; numbers of magnitude above one are outside its domain. -/
def acos (x : Float) : Checked :=
  if x.isNaN then .ok x
  else if x.abs > 1 then .error .domain
  else .ok ((Fixed.halfPi - signedArcsin x : Fixed).toFloat 0)

/-- The power of a positive magnitude: the exponential of the exponent times the logarithm,
computed exactly enough to be rounded once. -/
def powMagnitude (base exponent : Float) : Float :=
  let e := Double.magnitude exponent
  let product := Fixed.log (Double.magnitude base) * (e.significand : Int)
  let t := (product <<< e.exponent.toNat) >>> (-e.exponent).toNat
  let t := if Double.signBit exponent then -t else t
  if t > Fixed.expLimit then Double.infinity
  else if t < -Fixed.expLimit then 0
  else (Fixed.exp t).toFloat

/-- The power of an infinite base: it grows beyond bounds for a positive exponent and vanishes for
a negative one, and keeps the sign of the base if the exponent is odd. -/
def powInfiniteBase (base exponent : Float) : Float :=
  let limit := if exponent > 0 then Double.infinity else 0
  Double.withSign (Double.signBit base ∧ Double.isOddInteger exponent) limit

/-- The power with an infinite exponent: the limit depends on whether the base lies inside or
outside the unit circle, and on the sign of the exponent. -/
def powInfiniteExponent (base exponent : Float) : Float :=
  if base.abs == 1 then 1
  else if decide (base.abs > 1) = decide (exponent > 0) then Double.infinity
  else 0

/-- The power `base ^ exponent`. Any number to the power zero is one, and so is one to any power,
even where the other argument is not a number. Zero has no negative power, and a negative base
has no power with a fractional exponent; an odd power of a negative base is negative. -/
def pow (base exponent : Float) : Checked :=
  if exponent == 0 ∨ base == 1 then .ok 1
  else if base.isNaN then .ok base
  else if exponent.isNaN then .ok exponent
  else if base.isInf then .ok (powInfiniteBase base exponent)
  else if exponent.isInf then .ok (powInfiniteExponent base exponent)
  else if base == 0 then
    if exponent < 0 then .error .domain
    else .ok (Double.withSign (Double.signBit base ∧ Double.isOddInteger exponent) 0)
  else if base < 0 ∧ (Double.toInt? exponent).isNone then .error .domain
  else
    ofRounded (Double.withSign (base < 0 ∧ Double.isOddInteger exponent)
      (powMagnitude base exponent))

end Checked

end Plotter
