/-!
# Double-precision numbers as exact values

A finite double is a natural number times a power of two, with a sign. This module takes a double
apart into that form and rounds an exact fraction to the nearest double, so that numerals and
elementary functions can be computed exactly first and rounded once at the end.
-/

namespace Plotter.Double

/-- The power of a base with an integer exponent, and one where the exponent is negative. The value
`n * base ^ e` is then the fraction of `n * natPow base e` over `natPow base (-e)`. -/
def natPow (base : Nat) (exponent : Int) : Nat := Nat.pow base exponent.toNat

/-- Positive infinity. -/
def infinity : Float := Float.ofBits 0x7FF0000000000000

/-- The value that is not a number. -/
def nan : Float := Float.ofBits 0x7FF8000000000000

/-- The bit pattern of positive infinity, read as a number: every finite positive double has a
smaller one. -/
def infinityBits : Nat := 0x7FF0000000000000

/-- Whether the sign bit is set; true of `-0.0` as well. -/
def signBit (x : Float) : Bool := x.toBits ≥ 0x8000000000000000

/-- The number with the magnitude of `x`, negative exactly if `negative` holds. -/
def withSign (negative : Bool) (x : Float) : Float := if negative then -x.abs else x.abs

/-- The magnitude `significand * 2 ^ exponent`. -/
structure Magnitude where
  /-- The integer part of the product; below `2 ^ 53` for a double. -/
  significand : Nat
  /-- The power of two. -/
  exponent : Int

/-- The magnitude of a finite double, read off its bits. Subnormal numbers share the exponent of
the least normal ones and have no hidden leading bit. -/
def magnitude (x : Float) : Magnitude :=
  let bits : Nat := x.toBits.toNat % Nat.pow 2 63
  let field : Nat := bits / Nat.pow 2 52
  let fraction : Nat := bits % Nat.pow 2 52
  if field = 0 then ⟨fraction, -1074⟩ else ⟨Nat.pow 2 52 + fraction, (field : Int) - 1075⟩

/-- The quotient rounded to the nearest integer, a half going to the even neighbour. -/
def roundDiv (num den : Nat) : Nat :=
  let quotient := num / den
  let rest := num % den
  if 2 * rest < den ∨ (2 * rest = den ∧ quotient % 2 = 0) then quotient else quotient + 1

/-- The greatest `e` with `2 ^ e ≤ num / den`, for positive `num` and `den`. -/
def floorLog2 (num den : Nat) : Int :=
  let e : Int := (num.log2 : Int) - den.log2
  if den * natPow 2 e ≤ num * natPow 2 (-e) then e else e - 1

/-- The bit pattern of the double nearest to `num / den`, a tie going to the even significand. The
unit in the last place is chosen so that the rounded significand has 53 bits, or is that of the
subnormal numbers; a significand that rounds up to `2 ^ 53` carries into the exponent field, and
what lies beyond the greatest double becomes infinity. -/
def nearestBits (num den : Nat) : Nat :=
  if num = 0 then 0
  else
    let unit := max (floorLog2 num den - 52) (-1074)
    let significand := roundDiv (num * natPow 2 (-unit)) (den * natPow 2 unit)
    min infinityBits ((unit + 1074).toNat * Nat.pow 2 52 + significand)

/-- The double nearest to the fraction `num / den`, a tie going to the even significand. -/
def nearest (num den : Nat) : Float := Float.ofBits (UInt64.ofNat (nearestBits num den))

/-- The double nearest to `coefficient * 2 ^ exponent`. -/
def nearestScaled (coefficient : Nat) (exponent : Int) : Float :=
  nearest (coefficient * natPow 2 exponent) (natPow 2 (-exponent))

/-- The double nearest to an integer. -/
def ofInt (i : Int) : Float := withSign (i < 0) (nearest i.natAbs 1)

/-- The integer that the double holds, if it is finite and has no fractional part. -/
def toInt? (x : Float) : Option Int :=
  if x.isFinite then
    let m := magnitude x
    let scale := natPow 2 (-m.exponent)
    if m.significand % scale = 0 then
      let n : Int := (m.significand / scale * natPow 2 m.exponent : Nat)
      some (if signBit x then -n else n)
    else none
  else none

/-- Whether the double is an odd integer. Infinities and numbers with a fractional part are not. -/
def isOddInteger (x : Float) : Bool :=
  match toInt? x with
  | some n => n % 2 ≠ 0
  | none => false

end Plotter.Double
