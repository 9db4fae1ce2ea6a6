import Plotter.Elementary.Fixed

/-!
# Exponential and logarithm

The exponential of a number is taken apart into a power of two and the exponential of a remainder
of at most `ln 2 / 2`; the logarithm splits its argument in the same way.
-/

namespace Plotter

/-- The product `mantissa * 2 ^ exponent`, with a mantissa between one half and two. -/
structure ScaledFixed where
  /-- The factor of moderate size. -/
  mantissa : Fixed
  /-- The power of two. -/
  exponent : Int

namespace ScaledFixed

/-- The double nearest to the product. -/
def toFloat (s : ScaledFixed) : Float := s.mantissa.toFloat s.exponent

/-- The product in fixed point; bits below the last unit are dropped. -/
def toFixed (s : ScaledFixed) : Fixed :=
  (s.mantissa <<< s.exponent.toNat) >>> (-s.exponent).toNat

end ScaledFixed

namespace Fixed

/-- The exponential of a number between `-1/2` and `1/2`, by its power series. -/
def expSeries (r : Fixed) : Fixed :=
  horner 46 fun k rest => one + mul r rest / (k + 1)

/-- The exponential. -/
def exp (t : Fixed) : ScaledFixed :=
  let k := (2 * t + ln2) / (2 * ln2)
  ⟨expSeries (t - k * ln2), k⟩

/-- The logarithm of a positive magnitude `f * 2 ^ k` with `f` between `√2 / 2` and `√2`. -/
def log (m : Double.Magnitude) : Fixed :=
  let top := m.significand.log2
  let f : Fixed := ofMagnitude ⟨m.significand, -(top : Int)⟩
  let k : Int := m.exponent + top
  let (f, k) := if mul f f > 2 * one then (f / 2, k + 1) else (f, k)
  k * ln2 + 2 * arctanh 52 (div (f - one) (f + one))

/-- The bound on the argument, in fixed point, beyond which an exponential is more than the greatest
double, and below whose negative it is less than half the least one. -/
def expLimit : Fixed := 746 * one

end Fixed

end Plotter
