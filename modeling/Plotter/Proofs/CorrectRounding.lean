import Plotter.Double.Numeral
import Plotter.Proofs.Arithmetic
import Plotter.Proofs.SignBits

/-!
# Correct rounding of fractions, integers and numerals

A value that is computed exactly is rounded once. The double is then the correctly rounded value: no
double is nearer, and it is infinite if and only if the value lies at least half a unit above the
greatest double. This holds of fractions, of integers and of decimal numerals, also of those that
are decided by their exponents and never turned into fractions.
-/

namespace Plotter

namespace Double

open Float.Model (Format UnpackedFloat)
open Float.Model.UnpackedFloat

variable {x : Float} {q : ℚ} {b n den : Nat} {e : Int}

/-! ## Correctly rounded doubles -/

/-- The result is infinite if and only if the exact one reaches the bound. -/
theorem IsRounded.isInf_iff (h : IsRounded x q) : x.isInf = true ↔ overflowBound ≤ |q| := by
  rw [← not_lt, ← h.isFinite_iff, isFinite_iff_not, and_iff_right h.not_nan, Bool.not_eq_false]

/-- No double is nearer to the exact result. -/
theorem IsRounded.abs_value_sub_le (h : IsRounded x q) (hq : |q| < overflowBound) (z : Float) :
    |value x - q| ≤ |value z - q| := by
  rw [h.value_eq hq]
  exact abs_rounded_sub_le_of_representable q (representable_value z)

/-- What is less than half the least unit is rounded to zero. -/
theorem isRounded_zero (hq : 0 ≤ q) (hlt : q < leastUnit / 2) : IsRounded 0 q := by
  refine ⟨isNaN_of_isFinite isFinite_zero, ?_⟩
  rw [value_zero, rounded_eq_zero hq hlt, saturated_of_abs_le]
  rw [abs_zero]
  exact limit_pos.le

theorem value_infinity : value infinity = limit := by
  have hmagnitude : (magnitude infinity).significand = 2 ^ 52 := by decide +kernel
  have hexponent : (magnitude infinity).exponent = 972 := by decide +kernel
  rw [value, if_neg signBit_infinity, one_mul, ← value_inf, Magnitude.value, hmagnitude, hexponent]
  rfl

theorem isRounded_infinity (hq : overflowBound ≤ q) : IsRounded infinity q := by
  refine ⟨isNaN_infinity, ?_⟩
  rw [value_infinity, saturated_of_le (zpow_le_rounded_iff.2 hq)]

/-! ## Bits and values -/

/-- Bits up to those of infinity are the exponent field and the fraction of the value. -/
theorem value_ofBits (hb : b ≤ infinityBits) :
    value (Float.ofBits (UInt64.ofNat b)) =
      saturated (fieldMagnitude (b / 2 ^ 52) (b % 2 ^ 52)).value := by
  have hle : b ≤ 2047 * 2 ^ 52 := hb
  let p : Pattern := (UInt64.ofNat b).toBitVec
  have hp : p.toNat = b := by
    show b % 2 ^ 64 = b
    omega
  have hnan : (UnpackedFloat.unpack .binary64 p).isNaN = false :=
    (isNaN_ofBits _).symm.trans (isNaN_ofBits_of_le hb)
  have hfield : (unpackExponent p).toNat = b / 2 ^ 52 := by
    rw [toNat_unpackExponent, hp]
    omega
  have hmagnitude : magnitudeOf (UnpackedFloat.unpack .binary64 p) =
      fieldMagnitude (b / 2 ^ 52) (b % 2 ^ 52) := by
    rw [magnitudeOf_unpack p hnan, hfield, toNat_unpackMantissa, hp]
  have hsign : signOf (UnpackedFloat.unpack .binary64 p) = .positive := by
    have hbit := toNat_unpackSign p
    rw [signOf_unpack p hnan]
    cases hs : Sign.ofBitVec (unpackSign p) with
    | positive => rfl
    | negative =>
      rw [hs, hp] at hbit
      have hone : b / 2 ^ 63 = 1 := hbit.symm
      omega
  have hcanonical : (magnitudeOf (UnpackedFloat.unpack .binary64 p)).IsCanonical := by
    rw [hmagnitude]
    exact isCanonical_fieldMagnitude _ (Nat.mod_lt _ (by norm_num))
  show value (packed (UnpackedFloat.unpack .binary64 p)) = _
  rw [value_packed hnan hcanonical, exactValue, hsign, hmagnitude, factor, one_mul]

/-- A carry goes over into the exponent field. -/
theorem IsUnits.value_fieldMagnitude (h : IsUnits n e) (hb : b = (e + 1074).toNat * 2 ^ 52 + n) :
    (fieldMagnitude (b / 2 ^ 52) (b % 2 ^ 52)).value = n * 2 ^ e := by
  obtain ⟨hunit, hle, hnormal⟩ := h
  rcases Nat.lt_or_ge n (2 ^ 52) with hsubnormal | hlow
  · have he : e = -1074 := hnormal.resolve_right (by omega)
    have hfield : b / 2 ^ 52 = 0 := by omega
    have hfraction : b % 2 ^ 52 = n := by omega
    rw [hfield, hfraction, fieldMagnitude, if_pos rfl, Magnitude.value, he]
  rcases hle.lt_or_eq with hlt | rfl
  · have hfield : b / 2 ^ 52 = (e + 1075).toNat := by omega
    have hfraction : b % 2 ^ 52 = n - 2 ^ 52 := by omega
    rw [hfield, hfraction, fieldMagnitude_of_normal hlow hunit, Magnitude.value]
  · have hfield : b / 2 ^ 52 = (e + 1 + 1075).toNat := by omega
    have hfraction : b % 2 ^ 52 = 2 ^ 52 - 2 ^ 52 := by omega
    rw [hfield, hfraction, fieldMagnitude_of_normal le_rfl (by omega), Magnitude.value,
      zpow_add₀ two_ne_zero]
    push_cast
    ring

/-! ## Fractions -/

/-- A fraction is correctly rounded. -/
theorem isRounded_nearest (num : Nat) (hden : den ≠ 0) :
    IsRounded (nearest num den) ((num : ℚ) / den) := by
  refine ⟨isNaN_nearest num den, ?_⟩
  obtain ⟨n, e, hunits, hrounded, hbits⟩ := exists_units_of_nearestBits num hden
  rw [nearest, value_ofBits (nearestBits_le num den), hbits, hrounded]
  rcases Nat.lt_or_ge ((e + 1074).toNat * 2 ^ 52 + n) infinityBits with hlt | hge
  · rw [Nat.min_eq_right hlt.le, hunits.value_fieldMagnitude rfl]
  · have hlimit : limit ≤ (n : ℚ) * 2 ^ e := hunits.infinityBits_le_iff.1 hge
    have hinfinity : (fieldMagnitude (infinityBits / 2 ^ 52) (infinityBits % 2 ^ 52)).value =
        limit := value_inf
    rw [Nat.min_eq_left hge, hinfinity, saturated_of_le le_rfl, saturated_of_le hlimit]

/-- The fraction that stands for a number with an exponent. -/
theorem cast_mul_natPow_div_natPow {base : Nat} (hbase : base ≠ 0) (n : Nat) (e : Int) :
    ((n * natPow base e : Nat) : ℚ) / natPow base (-e) = n * (base : ℚ) ^ e := by
  have hpos : (natPow base (-e) : ℚ) ≠ 0 := by exact_mod_cast (natPow_pos hbase (-e)).ne'
  rw [Nat.cast_mul, cast_natPow hbase e, mul_left_comm, mul_div_cancel_left₀ _ hpos]

/-- A multiple of a power of two is correctly rounded. -/
theorem isRounded_nearestScaled (n : Nat) (e : Int) :
    IsRounded (nearestScaled n e) (n * 2 ^ e) := by
  have hround := isRounded_nearest (n * natPow 2 e) (natPow_pos two_ne_zero (-e)).ne'
  rwa [cast_mul_natPow_div_natPow two_ne_zero] at hround

/-! ## Signed values -/

/-- Setting the sign bit sets the sign of the value. -/
theorem value_withSign (negative : Bool) (hx : x.isNaN = false) :
    value (withSign negative x) = (if negative then -1 else 1) * |value x| := by
  have hnan : x.abs.isNaN = false := (isNaN_abs x).trans hx
  have hmagnitude : magnitude (withSign negative x) = magnitude x := by
    rw [withSign]
    split
    · rw [magnitude_neg hnan, magnitude_abs hx]
    · exact magnitude_abs hx
  rw [value, signBit_withSign negative hx, hmagnitude, abs_value]

theorem saturated_nonneg (hq : 0 ≤ q) : 0 ≤ saturated q :=
  le_max_of_le_right (le_min limit_pos.le hq)

/-- A correctly rounded magnitude stays so with a sign. -/
theorem IsRounded.withSign (h : IsRounded x q) (hq : 0 ≤ q) (negative : Bool) :
    IsRounded (withSign negative x) ((if negative then -1 else 1) * q) := by
  refine ⟨(isNaN_withSign negative x).trans h.not_nan, ?_⟩
  rw [value_withSign negative h.not_nan, h.value_eq_saturated,
    abs_of_nonneg (saturated_nonneg (rounded_nonneg hq))]
  split
  · rw [neg_one_mul, neg_one_mul, rounded_neg, saturated_neg]
  · rw [one_mul, one_mul]

/-- An odd function of an integer is that of its magnitude with the sign put back. -/
theorem sign_mul_natAbs (f : ℚ → ℚ) (hf : ∀ q, f (-q) = -f q) (i : Int) :
    (if i < 0 then -1 else 1) * f i.natAbs = f i := by
  rw [Nat.cast_natAbs]
  split
  · rename_i hneg
    rw [abs_of_neg hneg, Int.cast_neg, hf, neg_one_mul, neg_neg]
  · rename_i hnonneg
    rw [abs_of_nonneg (not_lt.1 hnonneg), one_mul]

/-- An integer is correctly rounded. -/
theorem isRounded_ofInt (i : Int) : IsRounded (ofInt i) i := by
  have hround := (isRounded_nearest i.natAbs one_ne_zero).withSign (by positivity) (i < 0)
  have hsign : (if i < 0 then -1 else 1) * (i.natAbs : ℚ) = i :=
    sign_mul_natAbs (fun q => q) (fun _ => rfl) i
  simp only [Nat.cast_one, div_one, decide_eq_true_eq, hsign] at hround
  exact hround

/-- An integer is too large for the doubles if and only if its magnitude reaches the bound. -/
theorem isInf_ofInt_iff {i : Int} : (ofInt i).isInf = true ↔ overflowBound ≤ i.natAbs := by
  rw [(isRounded_ofInt i).isInf_iff, ← Int.cast_abs, ← Nat.cast_natAbs]
  exact_mod_cast Iff.rfl

end Double

open Double

/-! ## Numerals -/

/-- The exact value. -/
def Numeral.value (n : Numeral) : ℚ := n.coefficient * 10 ^ n.exponent

theorem pow_le_pow_of_ratio {a b k l m n : Nat} (hk : k ≠ 0) (hb : 0 < b) (h : a ^ k ≤ b ^ l)
    (hratio : n * l ≤ m * k) : a ^ n ≤ b ^ m := by
  rw [← Nat.pow_le_pow_iff_left hk]
  calc (a ^ n) ^ k
    _ = (a ^ k) ^ n := pow_right_comm a n k
    _ ≤ (b ^ l) ^ n := Nat.pow_le_pow_left h n
    _ = b ^ (n * l) := by rw [← pow_mul, mul_comm]
    _ ≤ b ^ (m * k) := Nat.pow_le_pow_right hb hratio
    _ = (b ^ m) ^ k := pow_mul b m k

namespace Numeral

variable {n : Numeral}

theorem value_nonneg (n : Numeral) : 0 ≤ n.value :=
  mul_nonneg (Nat.cast_nonneg _) (by positivity)

/-- The power of ten that the binary logarithm of the coefficient gives as a lower bound. -/
theorem le_value (hn : n.coefficient ≠ 0) :
    10 ^ (n.exponent + 3 * (n.coefficient.log2 : Int) / 10) ≤ n.value := by
  have hnat : 10 ^ (3 * n.coefficient.log2 / 10) ≤ n.coefficient :=
    (pow_le_pow_of_ratio three_ne_zero two_pos (by norm_num : 10 ^ 3 ≤ 2 ^ 10) (by omega)).trans
      (Nat.log2_self_le hn)
  have hcast : (10 : ℚ) ^ (3 * (n.coefficient.log2 : Int) / 10) ≤ n.coefficient := by
    exact_mod_cast hnat
  rw [value, add_comm, zpow_add₀ (by norm_num)]
  exact mul_le_mul_of_nonneg_right hcast (by positivity)

/-- The power of ten that it gives as an upper bound. -/
theorem value_lt (n : Numeral) :
    n.value < 10 ^ (n.exponent + 31 * ((n.coefficient.log2 : Int) + 1) / 100 + 1) := by
  have hnat : n.coefficient < 10 ^ (31 * (n.coefficient.log2 + 1) / 100 + 1) :=
    Nat.lt_log2_self.trans_le
      (pow_le_pow_of_ratio (by norm_num) (by norm_num) (by norm_num : 2 ^ 100 ≤ 10 ^ 31) (by omega))
  have hcast : (n.coefficient : ℚ) < 10 ^ (31 * ((n.coefficient.log2 : Int) + 1) / 100 + 1) := by
    exact_mod_cast hnat
  rw [value, add_assoc, add_comm n.exponent, zpow_add₀ (by norm_num)]
  exact mul_lt_mul_of_pos_right hcast (by positivity)

/-- A numeral is read as the correctly rounded double, also where its exponent decides alone. -/
theorem isRounded_toFloat (n : Numeral) : IsRounded n.toFloat n.value := by
  have hhuge : overflowBound ≤ 10 ^ 311 := by decide +kernel
  have htiny : 2 ^ 1075 ≤ 10 ^ 331 := by decide +kernel
  have hten : (10 : Nat) ≠ 0 := by norm_num
  simp only [toFloat]
  split_ifs with hcoefficient hlarge hsmall
  · have hzero : n.value = 0 := by rw [value, hcoefficient, Nat.cast_zero, zero_mul]
    exact isRounded_zero hzero.ge (hzero.trans_lt (half_pos leastUnit_pos))
  · refine isRounded_infinity ?_
    calc (overflowBound : ℚ)
      _ ≤ 10 ^ (311 : ℤ) := by exact_mod_cast hhuge
      _ ≤ 10 ^ (n.exponent + 3 * (n.coefficient.log2 : Int) / 10) :=
        zpow_le_zpow_right₀ (by norm_num) (by omega)
      _ ≤ n.value := le_value hcoefficient
  · refine isRounded_zero n.value_nonneg ?_
    calc n.value
      _ < 10 ^ (n.exponent + 31 * ((n.coefficient.log2 : Int) + 1) / 100 + 1) := n.value_lt
      _ ≤ 10 ^ (-331 : ℤ) := zpow_le_zpow_right₀ (by norm_num) (by omega)
      _ ≤ 2 ^ (-1075 : ℤ) := by
        rw [zpow_neg, zpow_neg]
        exact inv_anti₀ (zpow_two_pos 1075) (by exact_mod_cast htiny)
      _ = leastUnit / 2 := by
        rw [leastUnit, show (-1075 : ℤ) = -1074 - 1 by norm_num, zpow_sub_one₀ two_ne_zero,
          div_eq_mul_inv]
  · have hround := isRounded_nearest (n.coefficient * natPow 10 n.exponent)
      (natPow_pos hten (-n.exponent)).ne'
    rwa [cast_mul_natPow_div_natPow hten] at hround

/-- A numeral is finite if and only if its value is less than the bound. -/
theorem isFinite_toFloat_iff : n.toFloat.isFinite = true ↔ n.value < overflowBound := by
  rw [n.isRounded_toFloat.isFinite_iff, abs_of_nonneg n.value_nonneg]

end Numeral

end Plotter
