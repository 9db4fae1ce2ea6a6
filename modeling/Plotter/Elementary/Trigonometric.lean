import Plotter.Elementary.Fixed

/-!
# Trigonometric functions and their inverses

An angle is reduced to the nearest multiple of `π / 2`; the remainder is at most `π / 4`, where the
power series converge fast. The inverse tangent halves its argument's angle before its series.
-/

namespace Plotter

/-- An angle as a number of quarter turns and a remainder of at most `π / 4` in magnitude. -/
structure ReducedAngle where
  /-- The number of quarter turns. -/
  quarters : Nat
  /-- What is left, with a sign. -/
  rest : Fixed

namespace ReducedAngle

/-- Reduces a magnitude of at least `2 ^ -28`. As many further bits of `π / 2` are used as the
magnitude has before its binary point, so the remainder has full precision for every double. -/
def ofMagnitude (m : Double.Magnitude) : ReducedAngle :=
  let guard := (m.significand.log2 + 1 + m.exponent).toNat
  let bits := Fixed.precision + guard
  let angle := m.significand <<< (m.exponent + bits).toNat
  let quarter := (Fixed.halfPiLong >>> (Fixed.halfPiBits - bits)).toNat
  let quarters := Double.roundDiv angle quarter
  ⟨quarters, ((angle : Int) - (quarters * quarter : Nat)) >>> guard⟩

/-- The sine of the remainder, by its power series. -/
def sinRest (a : ReducedAngle) : Fixed :=
  let square := Fixed.mul a.rest a.rest
  Fixed.mul a.rest <| Fixed.horner 27 fun k rest =>
    Fixed.one - Fixed.mul square rest / ((2 * k + 2) * (2 * k + 3) : Nat)

/-- The cosine of the remainder, by its power series. -/
def cosRest (a : ReducedAngle) : Fixed :=
  let square := Fixed.mul a.rest a.rest
  Fixed.horner 27 fun k rest =>
    Fixed.one - Fixed.mul square rest / ((2 * k + 1) * (2 * k + 2) : Nat)

/-- The sine of the whole angle. -/
def sin (a : ReducedAngle) : Fixed :=
  match a.quarters % 4 with
  | 0 => a.sinRest
  | 1 => a.cosRest
  | 2 => -a.sinRest
  | _ => -a.cosRest

/-- The cosine is the sine of an angle that is a quarter turn larger. -/
def cos (a : ReducedAngle) : Fixed := sin { a with quarters := a.quarters + 1 }

/-- The tangent of the whole angle. -/
def tan (a : ReducedAngle) : Fixed :=
  if a.quarters % 2 = 0 then Fixed.div a.sinRest a.cosRest
  else -Fixed.div a.cosRest a.sinRest

end ReducedAngle

namespace Fixed

/-- The tangent of half the angle whose tangent is `t`. -/
def halveAngle (t : Fixed) : Fixed := div t (one + sqrt (one + mul t t))

/-- The inverse tangent of a number between zero and one. After three halvings the argument of the
series is below one tenth. -/
def arctan (t : Fixed) : Fixed :=
  let small := Nat.repeat halveAngle 3 t
  8 * mul small (oddReciprocals true 40 (mul small small))

/-- The inverse sine of a number between zero and one: twice the angle whose tangent is
`t / (1 + √(1 - t²))`. -/
def arcsin (t : Fixed) : Fixed := 2 * arctan (div t (one + sqrt (one - mul t t)))

end Fixed

end Plotter
