import Plotter.Json.Basic
import Plotter.Text.Number
import Plotter.Double.Shortest

/-!
# Sampling grids

A grid divides a range of the horizontal axis evenly. Its bounds are finite and in order, and so is
its width; the values are read from settings that may come from outside, and every setting that does
not fit is reported.
-/

namespace Plotter

/-- The greatest number of points of a grid. -/
def maxSamples : Nat := 20000

/-- An evenly spaced grid that includes both of its bounds. -/
structure Grid where
  /-- The left bound. -/
  xMin : Float
  /-- The right bound. -/
  xMax : Float
  /-- The number of points. -/
  samples : Nat
  xMin_finite : xMin.isFinite = true
  xMax_finite : xMax.isFinite = true
  xMin_lt_xMax : xMin < xMax
  width_finite : (xMax - xMin).isFinite = true
  two_le_samples : 2 ≤ samples
  samples_le : samples ≤ maxSamples

namespace Grid

/-- The distance between neighbouring points. -/
def step (g : Grid) : Float := (g.xMax - g.xMin) / Float.ofNat (g.samples - 1)

/-- The points from left to right. The last one is the right bound itself, whatever the rounding of
the others. -/
def points (g : Grid) : List Float :=
  (List.range (g.samples - 1)).map (fun i => g.xMin + Float.ofNat i * g.step) ++ [g.xMax]

end Grid

/-- What is wrong with a setting. -/
inductive SettingFault where
  /-- The setting is missing. -/
  | missing
  /-- The value is not a number. -/
  | floatType
  /-- The text is not a number. -/
  | floatParsing
  /-- The value is not a whole number. -/
  | intType
  /-- The text is not a whole number. -/
  | intParsing
  /-- The number has too many digits or is too large. -/
  | intParsingSize
  /-- The number has a fractional part. -/
  | intFromFloat
  /-- The number is not finite. -/
  | finiteNumber
  /-- The number is too small. -/
  | greaterThanEqual
  /-- The number is too large. -/
  | lessThanEqual
  /-- The bound is not finite. -/
  | infiniteBound (value : Float)
  /-- The right bound is not above the left one. -/
  | unordered (xMax xMin : Float)
  /-- The width of the range is not finite. -/
  | tooWide (xMin xMax : Float)
deriving DecidableEq

namespace SettingFault

/-- The name of the kind of fault. -/
def name : SettingFault → String
  | .missing => "missing"
  | .floatType => "float_type"
  | .floatParsing => "float_parsing"
  | .intType => "int_type"
  | .intParsing => "int_parsing"
  | .intParsingSize => "int_parsing_size"
  | .intFromFloat => "int_from_float"
  | .finiteNumber => "finite_number"
  | .greaterThanEqual => "greater_than_equal"
  | .lessThanEqual => "less_than_equal"
  | .infiniteBound _ | .unordered _ _ | .tooWide _ _ => "value_error"

/-- The message for a bound that is a number but does not fit. -/
def message? : SettingFault → Option String
  | .infiniteBound v => some ("Value error, range bound must be finite, got " ++ Double.text v)
  | .unordered b a =>
    some ("Value error, x_max " ++ Double.text b ++ " must be > x_min " ++ Double.text a)
  | .tooWide a b =>
    some ("Value error, range width x_max - x_min overflows: [" ++ Double.text a ++ ", " ++
      Double.text b ++ "]")
  | _ => none

end SettingFault

/-- A setting and what is wrong with it. -/
structure SettingError where
  /-- The name of the setting. -/
  setting : String
  /-- The fault. -/
  fault : SettingFault
deriving DecidableEq

namespace Grid

/-- Reads a bound: any number or truth value, or a text that is a number. -/
def readBound : Option Json → Except SettingFault Float
  | none => .error .missing
  | some (.int i) =>
    let x := Double.ofInt i
    if x.isInf then .error .floatType else .ok x
  | some (.real x) => .ok x
  | some (.bool b) => .ok (if b then 1 else 0)
  | some (.string s) =>
    match Text.bound? s with
    | some x => .ok x
    | none => .error .floatParsing
  | some _ => .error .floatType

/-- The least power of two that is too large for a whole number given as a double. -/
def wholeLimit : Float := 9223372036854775808

/-- Reads a whole number: an integer or a truth value, a number without fractional part, or a text
that is one. -/
def readWhole : Option Json → Except SettingFault Int
  | none => .error .missing
  | some (.int i) => .ok i
  | some (.bool b) => .ok (if b then 1 else 0)
  | some (.real x) =>
    if x.isFinite then
      match Double.toInt? x with
      | none => .error .intFromFloat
      | some i => if x.abs < wholeLimit then .ok i else .error .intParsingSize
    else .error .finiteNumber
  | some (.string s) =>
    match Text.whole s with
    | .ok i => .ok i
    | .error .notWhole => .error .intParsing
    | .error .tooLong => .error .intParsingSize
  | some _ => .error .intType

/-- What a left bound must satisfy. -/
abbrev Lower := { x : Float // x.isFinite = true }

/-- What a right bound must satisfy beside a left one, which is absent if it is at fault itself. -/
abbrev Upper (lower : Option Float) :=
  { x : Float // x.isFinite = true ∧ ∀ a ∈ lower, a < x ∧ (x - a).isFinite = true }

/-- What a number of points must satisfy. -/
abbrev Count := { n : Nat // 2 ≤ n ∧ n ≤ maxSamples }

/-- Accepts a finite bound. -/
def checkLower (x : Float) : Except SettingFault Lower :=
  if h : x.isFinite = true then .ok ⟨x, h⟩ else .error (.infiniteBound x)

/-- Accepts a finite bound that is above the left one, at a finite distance. -/
def checkUpper (lower : Option Float) (x : Float) : Except SettingFault (Upper lower) :=
  if finite : x.isFinite = true then
    match lower with
    | none => .ok ⟨x, finite, by simp⟩
    | some a =>
      if order : a < x then
        if width : (x - a).isFinite = true then .ok ⟨x, finite, by simp [order, width]⟩
        else .error (.tooWide a x)
      else .error (.unordered x a)
  else .error (.infiniteBound x)

/-- Accepts a number of points within the bounds. -/
def checkCount (n : Int) : Except SettingFault Count :=
  if low : n < 2 then .error .greaterThanEqual
  else if high : n > maxSamples then .error .lessThanEqual
  else .ok ⟨n.toNat, by omega⟩

/-- The fault of a setting as a list of at most one. -/
def faultOf {α : Type} (setting : String) : Except SettingFault α → List SettingError
  | .ok _ => []
  | .error fault => [⟨setting, fault⟩]

/-- Reads a grid from settings by name. All settings at fault are reported; settings of other names
are disregarded. -/
def ofSettings (settings : List (String × Json)) : Except (List SettingError) Grid :=
  let lower := readBound (settings.lookup "x_min") >>= checkLower
  let upper := readBound (settings.lookup "x_max") >>= checkUpper (lower.toOption.map Subtype.val)
  let count := readWhole (settings.lookup "samples") >>= checkCount
  match lower, upper, count with
  | .ok a, .ok b, .ok n =>
    have bounds := b.property.2 a rfl
    .ok {
      xMin := a, xMax := b, samples := n
      xMin_finite := a.property, xMax_finite := b.property.1
      xMin_lt_xMax := bounds.1, width_finite := bounds.2
      two_le_samples := n.property.1, samples_le := n.property.2 }
  | lower, upper, count =>
    .error (faultOf "x_min" lower ++ faultOf "x_max" upper ++ faultOf "samples" count)

end Grid

end Plotter
