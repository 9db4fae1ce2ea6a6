import Plotter.Double.Basic

/-!
# Fixed-point arithmetic

Elementary functions are computed with 256 bits after the binary point and rounded once to a
double. Every operation is off by at most a unit or so in the last of these bits, and the series
are cut where their terms fall below it, so a result carries well over a hundred correct bits
beyond those of a double.
-/

namespace Plotter

/-- A real number in units of `2 ^ -256`. -/
abbrev Fixed := Int

namespace Fixed

/-- The number of bits after the binary point. -/
def precision : Nat := 256

/-- The number one. -/
def one : Fixed := (Nat.pow 2 precision : Nat)

/-- The product. -/
def mul (a b : Fixed) : Fixed := (a * b) >>> precision

/-- The quotient; the divisor is not zero. -/
def div (a b : Fixed) : Fixed := (a <<< precision) / b

/-- The number `significand * 2 ^ exponent`; bits below the last unit are dropped. -/
def ofMagnitude (m : Double.Magnitude) : Fixed :=
  let shift := m.exponent + precision
  ((m.significand <<< shift.toNat) >>> (-shift).toNat : Nat)

/-- One Newton step for the square root of `n`. -/
def sqrtStep (n guess : Nat) : Nat := (guess + n / guess) / 2

/-- The square root of a number that is not negative. Newton's method starts above the root, off by
less than half of it, and then doubles the number of correct bits in each of ten steps. -/
def sqrt (a : Fixed) : Fixed :=
  let n := a.toNat <<< precision
  if n = 0 then 0
  else (Nat.repeat (sqrtStep n) 10 (Nat.pow 2 ((n.log2 + 2) / 2)) : Nat)

/-- The double nearest to `a * 2 ^ exponent`. The 64 lowest bits are rounded away first, so that a
value that lies on a midpoint between two doubles is recognised as such in spite of the errors of
the computation. -/
def toFloat (a : Fixed) (exponent : Int) : Float :=
  let coefficient := Double.roundDiv a.natAbs (Nat.pow 2 64)
  Double.withSign (a < 0) (Double.nearestScaled coefficient (exponent + 64 - precision))

/-- The sum of a series by Horner's scheme: `combine k rest` adds the terms from the `k`-th on,
given the sum of the later ones relative to it. -/
def horner (terms : Nat) (combine : Nat → Fixed → Fixed) : Fixed :=
  (List.range terms).foldr combine 0

/-- The sum of `sign ^ k * t ^ (2 * k) / (2 * k + 1)`, which is the inverse tangent of `t`
divided by `t` for alternating signs, and the inverse hyperbolic tangent for equal ones. -/
def oddReciprocals (alternating : Bool) (terms : Nat) (square : Fixed) : Fixed :=
  horner terms fun k rest =>
    let tail := mul square rest
    one / (2 * k + 1) + (if alternating then -tail else tail)

/-- The inverse hyperbolic tangent, by the given number of terms of its power series. -/
def arctanh (terms : Nat) (t : Fixed) : Fixed := mul t (oddReciprocals false terms (mul t t))

/-- The natural logarithm of two. -/
def ln2 : Fixed := 2 * arctanh 84 (one / 3)

/-- The inverse tangent of `1 / n` in units of `2 ^ -bits`, for `n ≥ 5`. -/
def arctanReciprocal (bits n : Nat) : Int :=
  (List.range (bits / 4)).foldr
    (fun k rest => (Nat.pow 2 bits / (2 * k + 1) : Nat) - rest / (n * n : Nat)) 0 / n

/-- The number of bits of `π / 2` that the reduction of the greatest double needs. -/
def halfPiBits : Nat := 1400

/-- The number `π / 2` in units of `2 ^ -halfPiBits`, by Machin's formula. -/
def halfPiLong : Int :=
  let bits := halfPiBits + 32
  let quarterTurn : Int := 8 * arctanReciprocal bits 5 - 2 * arctanReciprocal bits 239
  quarterTurn >>> (32 : Nat)

/-- The number `π / 2`. -/
def halfPi : Fixed := halfPiLong >>> (halfPiBits - precision)

end Fixed

end Plotter
