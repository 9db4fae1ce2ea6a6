import Plotter.Double.Basic
import Plotter.Proofs.NearestEven

/-!
# Numbers, infinities and the rounding of fractions

Whether a double is infinite, or no number at all, is read off its bits. The bits of a rounded
fraction are computed from the nearest whole number of units, and they are always those of a number.
-/

namespace Plotter.Double

open Float.Model (Format UnpackedFloat)
open Float.Model.UnpackedFloat

/-- The bits of a double. -/
abbrev Pattern := BitVec Format.binary64.numBits

variable {u : UnpackedFloat} {num den n : Nat} {e : Int}

/-! ## Reading bits -/

/-- What is no number has the greatest exponent field and a fraction. -/
theorem isNaN_unpack (b : Pattern) :
    (UnpackedFloat.unpack .binary64 b).isNaN =
      decide (unpackExponent b = 2047#11 ∧ unpackMantissa b ≠ 0#52) := by
  rw [UnpackedFloat.unpack]
  split
  · split <;> simp_all [UnpackedFloat.isNaN]
  · split
    · split <;> simp_all [UnpackedFloat.isNaN]
    · simp_all [UnpackedFloat.isNaN]

/-- An infinity has the greatest exponent field and no fraction. -/
theorem isInf_unpack (b : Pattern) :
    (UnpackedFloat.unpack .binary64 b).isInf =
      decide (unpackExponent b = 2047#11 ∧ unpackMantissa b = 0#52) := by
  rw [UnpackedFloat.unpack]
  split
  · split <;> simp_all [UnpackedFloat.isInf]
  · split
    · split <;> simp_all [UnpackedFloat.isInf]
    · simp_all [UnpackedFloat.isInf]

theorem toNat_unpackExponent (b : Pattern) :
    (unpackExponent b).toNat = b.toNat / 2 ^ 52 % 2 ^ 11 := by
  simp [unpackExponent, Nat.shiftRight_eq_div_pow]

theorem toNat_unpackMantissa (b : Pattern) : (unpackMantissa b).toNat = b.toNat % 2 ^ 52 := by
  simp [unpackMantissa]

/-- A finite number has an exponent for which there are bits. -/
def Bounded : UnpackedFloat → Prop
  | .finite _ _ e _ => e ≤ 971
  | _ => True

/-- Reading bits gives such a number. -/
theorem bounded_unpack (b : Pattern) : Bounded (UnpackedFloat.unpack .binary64 b) := by
  have hlt : (unpackExponent b).toNat < 2048 := (unpackExponent b).isLt
  rw [UnpackedFloat.unpack]
  split
  · split <;> trivial
  · rename_i hmax
    have hne : (unpackExponent b).toNat ≠ 2047 := fun h => hmax (BitVec.eq_of_toNat_eq h)
    split
    · rename_i hzero
      have hzero : (unpackExponent b).toNat = 0 := congrArg BitVec.toNat hzero
      split
      · trivial
      · show ((unpackExponent b).toNat : Int) - (1023 + 52) + 1 ≤ 971
        omega
    · show ((unpackExponent b).toNat : Int) - (1023 + 52) ≤ 971
      omega

/-! ## Writing bits and reading them again -/

theorem ofNat_ne_ones (h : n + 1 < 2048) : BitVec.ofNat 11 n ≠ 2047#11 := by
  intro heq
  have hn : n % 2048 = 2047 := congrArg BitVec.toNat heq
  omega

/-- Writing bits and reading them again keeps what is no number. -/
theorem isNaN_unpack_pack (u : UnpackedFloat) :
    (UnpackedFloat.unpack .binary64 (UnpackedFloat.pack .binary64 u)).isNaN = u.isNaN := by
  rw [isNaN_unpack]
  fun_cases UnpackedFloat.pack .binary64 u with
  | case1 => decide
  | case2 s => simp [packedInfinity, UnpackedFloat.isNaN]
  | case3 s => simp [packedZero, UnpackedFloat.isNaN]
  | case4 s m e hm biased h => simp [packedInfinity, UnpackedFloat.isNaN]
  | case5 s m e hm bits biased h =>
    have hne : BitVec.ofNat 11 biased ≠ 2047#11 := ofNat_ne_ones (Nat.not_le.1 h)
    simp [UnpackedFloat.isNaN, hne]
  | case6 s m e hm bits biased h => simp [UnpackedFloat.isNaN]

/-- It keeps the infinities, if the number has bits. -/
theorem isInf_unpack_pack (hu : Bounded u) :
    (UnpackedFloat.unpack .binary64 (UnpackedFloat.pack .binary64 u)).isInf = u.isInf := by
  rw [isInf_unpack]
  fun_cases UnpackedFloat.pack .binary64 u with
  | case1 => decide
  | case2 s => simp [packedInfinity, UnpackedFloat.isInf]
  | case3 s => simp [packedZero, UnpackedFloat.isInf]
  | case4 s m e hm biased h =>
    have hlarge : 2048 ≤ (e + 1023 + 52).toNat + 1 := h
    have hsmall : e ≤ 971 := hu
    omega
  | case5 s m e hm bits biased h =>
    have hne : BitVec.ofNat 11 biased ≠ 2047#11 := ofNat_ne_ones (Nat.not_le.1 h)
    simp [UnpackedFloat.isInf, hne]
  | case6 s m e hm bits biased h => simp [UnpackedFloat.isInf]

theorem isNaN_ofBits (bits : UInt64) :
    (Float.ofBits bits).isNaN = (UnpackedFloat.unpack .binary64 bits.toBitVec).isNaN :=
  isNaN_unpack_pack _

/-! ## Infinity -/

theorem isNaN_infinity : infinity.isNaN = false := by decide +kernel

theorem isInf_infinity : infinity.isInf = true := by decide +kernel

/-! ## Signs -/

theorem Bounded.neg (h : Bounded u) : Bounded u.neg := by
  cases u with
  | finite => exact h
  | infinity | notANumber | zero => trivial

theorem Bounded.abs (h : Bounded u) : Bounded u.abs := by
  cases u with
  | finite => exact h
  | infinity | notANumber | zero => trivial

theorem isInf_neg (x : Float) : (-x).isInf = x.isInf := by
  have hx : (-x).isInf = x.toModel.unpack.neg.isInf := isInf_unpack_pack (bounded_unpack _).neg
  rw [hx, Float.isInf, Float.Model.isInf]
  cases x.toModel.unpack <;> rfl

theorem isInf_abs (x : Float) : x.abs.isInf = x.isInf := by
  have hx : x.abs.isInf = x.toModel.unpack.abs.isInf := isInf_unpack_pack (bounded_unpack _).abs
  rw [hx, Float.isInf, Float.Model.isInf]
  cases x.toModel.unpack <;> rfl

/-- A double stays infinite, or finite, under any sign. -/
theorem isInf_withSign (negative : Bool) (x : Float) :
    (withSign negative x).isInf = x.isInf := by
  rw [withSign]
  split
  · rw [isInf_neg, isInf_abs]
  · exact isInf_abs x

/-! ## The bits from zero to infinity -/

/-- The bits up to those of infinity are those of numbers. -/
theorem isNaN_ofBits_of_le (h : n ≤ infinityBits) :
    (Float.ofBits (UInt64.ofNat n)).isNaN = false := by
  have hn : n ≤ 2047 * 2 ^ 52 := h
  let b : Pattern := (UInt64.ofNat n).toBitVec
  have hb : b.toNat = n := by
    show n % 2 ^ 64 = n
    omega
  rw [isNaN_ofBits, isNaN_unpack, decide_eq_false_iff_not]
  rintro ⟨hexponent, hmantissa⟩
  have hexponent : (unpackExponent b).toNat = 2047 := congrArg BitVec.toNat hexponent
  rw [toNat_unpackExponent, hb] at hexponent
  refine hmantissa (BitVec.eq_of_toNat_eq ?_)
  show (unpackMantissa b).toNat = 0
  rw [toNat_unpackMantissa, hb]
  omega

theorem nearestBits_le (num den : Nat) : nearestBits num den ≤ infinityBits := by
  rw [nearestBits]
  split
  · exact Nat.zero_le _
  · exact Nat.min_le_left _ _

/-- Rounding a fraction gives a number. -/
theorem isNaN_nearest (num den : Nat) : (nearest num den).isNaN = false :=
  isNaN_ofBits_of_le (nearestBits_le num den)

/-! ## Rounding fractions -/

/-- The quotient of natural numbers is the floor of the fraction. -/
theorem floor_natCast_div (num den : Nat) : ⌊(num : ℚ) / den⌋ = ((num / den : Nat) : Int) := by
  rw [Rat.floor_natCast_div_natCast]
  rfl

/-- Twice the fraction that is left of a division is twice the rest in units of the divisor. -/
theorem two_mul_fract_natCast_div (num den : Nat) :
    2 * Int.fract ((num : ℚ) / den) = (2 * (num % den) : Nat) / den := by
  rw [Int.fract_div_natCast_eq_div_natCast_mod, mul_div_assoc', Nat.cast_mul, Nat.cast_ofNat]

theorem two_mul_fract_eq_one_iff (hden : den ≠ 0) :
    2 * Int.fract ((num : ℚ) / den) = 1 ↔ 2 * (num % den) = den := by
  have hden : (den : ℚ) ≠ 0 := by exact_mod_cast hden
  rw [two_mul_fract_natCast_div, div_eq_one_iff_eq hden, Nat.cast_inj]

/-- The division rounds the exact quotient, a half going to the even neighbour. -/
theorem cast_roundDiv (hden : den ≠ 0) :
    ((roundDiv num den : Nat) : Int) = roundEven ((num : ℚ) / den) := by
  have hfloor := floor_natCast_div num den
  have hlt : 2 * Int.fract ((num : ℚ) / den) < 1 ↔ 2 * (num % den) < den := by
    have hden : (0 : ℚ) < den := by exact_mod_cast Nat.pos_of_ne_zero hden
    rw [two_mul_fract_natCast_div, div_lt_one hden, Nat.cast_lt]
  have htie : 2 * Int.fract ((num : ℚ) / den) = 1 ↔ 2 * (num % den) = den :=
    two_mul_fract_eq_one_iff hden
  have heven : Even ((num / den : Nat) : Int) ↔ num / den % 2 = 0 := by
    rw [Int.even_coe_nat, Nat.even_iff]
  simp only [roundEven, roundDiv, hfloor, hlt, htie, heven]
  split
  · rfl
  · push_cast
    rfl

/-- The two powers of a base have the power with the exponent as their quotient. -/
theorem cast_natPow {b : Nat} (hb : b ≠ 0) (e : Int) :
    (natPow b e : ℚ) = natPow b (-e) * (b : ℚ) ^ e := by
  have hb : (b : ℚ) ≠ 0 := by exact_mod_cast hb
  simp only [natPow, Nat.pow_eq, Nat.cast_pow, ← zpow_natCast]
  rw [← zpow_add₀ hb]
  congr 1
  omega

theorem natPow_pos {b : Nat} (hb : b ≠ 0) (e : Int) : 0 < natPow b e :=
  Nat.pow_pos (Nat.pos_of_ne_zero hb)

/-- Scaling a fraction moves it by a power of the base. -/
theorem cast_mul_natPow_div {b : Nat} (hb : b ≠ 0) (num den : Nat) (e : Int) :
    ((num * natPow b (-e) : Nat) : ℚ) / (den * natPow b e : Nat) = num / den / (b : ℚ) ^ e := by
  have hpos : (natPow b (-e) : ℚ) ≠ 0 := by exact_mod_cast (natPow_pos hb (-e)).ne'
  rw [Nat.cast_mul, Nat.cast_mul, cast_natPow hb e, div_div, mul_comm (natPow b (-e) : ℚ),
    ← mul_assoc, mul_div_mul_right _ _ hpos]

theorem zpow_log2_le (hn : n ≠ 0) : (2 : ℚ) ^ (n.log2 : Int) ≤ n := by
  rw [zpow_natCast]
  exact_mod_cast Nat.log2_self_le hn

theorem lt_zpow_log2 (n : Nat) : (n : ℚ) < 2 ^ ((n.log2 : Int) + 1) := by
  rw [show (n.log2 : Int) + 1 = ((n.log2 + 1 : Nat) : Int) by norm_num, zpow_natCast]
  exact_mod_cast Nat.lt_log2_self

/-- The binary logarithm of a fraction, rounded down. -/
theorem floorLog2_eq (hnum : num ≠ 0) (hden : den ≠ 0) :
    floorLog2 num den = Int.log 2 ((num : ℚ) / den) := by
  have hnum' : (0 : ℚ) < num := by exact_mod_cast Nat.pos_of_ne_zero hnum
  have hden' : (0 : ℚ) < den := by exact_mod_cast Nat.pos_of_ne_zero hden
  have hq : 0 < (num : ℚ) / den := div_pos hnum' hden'
  have hle : (num.log2 : Int) - den.log2 - 1 ≤ Int.log 2 ((num : ℚ) / den) := by
    rw [← Int.zpow_le_iff_le_log (by norm_num) hq, le_div_iff₀ hden']
    calc (((2 : ℕ) : ℚ)) ^ ((num.log2 : Int) - den.log2 - 1) * den
      _ ≤ 2 ^ ((num.log2 : Int) - den.log2 - 1) * 2 ^ ((den.log2 : Int) + 1) :=
        mul_le_mul_of_nonneg_left (lt_zpow_log2 den).le (zpow_two_pos _).le
      _ = 2 ^ (num.log2 : Int) := by
        rw [← zpow_add₀ two_ne_zero]
        congr 1
        omega
      _ ≤ num := zpow_log2_le hnum
  have hlt : Int.log 2 ((num : ℚ) / den) < (num.log2 : Int) - den.log2 + 1 := by
    rw [← Int.lt_zpow_iff_log_lt (by norm_num) hq, div_lt_iff₀ hden']
    calc (num : ℚ)
      _ < 2 ^ ((num.log2 : Int) + 1) := lt_zpow_log2 num
      _ = 2 ^ ((num.log2 : Int) - den.log2 + 1) * 2 ^ (den.log2 : Int) := by
        rw [← zpow_add₀ two_ne_zero]
        congr 1
        omega
      _ ≤ ((2 : ℕ) : ℚ) ^ ((num.log2 : Int) - den.log2 + 1) * den :=
        mul_le_mul_of_nonneg_left (zpow_log2_le hden) (zpow_two_pos _).le
  have htest (e : Int) :
      den * natPow 2 e ≤ num * natPow 2 (-e) ↔ e ≤ Int.log 2 ((num : ℚ) / den) := by
    have hpos : (0 : ℚ) < (den * natPow 2 e : Nat) := by
      exact_mod_cast Nat.mul_pos (Nat.pos_of_ne_zero hden) (natPow_pos two_ne_zero e)
    have hpower : (0 : ℚ) < ((2 : ℕ) : ℚ) ^ e := zpow_two_pos e
    rw [← Int.zpow_le_iff_le_log (by norm_num) hq, ← one_le_div₀ hpower,
      ← cast_mul_natPow_div two_ne_zero, one_le_div₀ hpos, Nat.cast_le]
  simp only [floorLog2, htest]
  split <;> omega

/-- A significand as rounding leaves it, with its exponent. A carry may have made it `2 ^ 53`; in the
bits of a double that goes over into the exponent field. -/
structure IsUnits (n : Nat) (e : Int) : Prop where
  le_exponent : -1074 ≤ e
  le_carry : n ≤ 2 ^ 53
  normal : e = -1074 ∨ 2 ^ 52 ≤ n

/-- The bits reach those of infinity if and only if the value reaches `2 ^ 1024`. -/
theorem IsUnits.infinityBits_le_iff (h : IsUnits n e) :
    infinityBits ≤ (e + 1074).toNat * 2 ^ 52 + n ↔ 2 ^ (1024 : ℤ) ≤ (n : ℚ) * 2 ^ e := by
  obtain ⟨hunit, hle, hnormal⟩ := h
  have hinfinity : infinityBits = 2047 * 2 ^ 52 := rfl
  have hle' : (n : ℚ) ≤ 2 ^ (53 : ℤ) := by exact_mod_cast hle
  rw [hinfinity]
  rcases lt_trichotomy e 971 with hlt | rfl | hgt
  · refine iff_of_false (by omega) (not_le.2 ?_)
    calc (n : ℚ) * 2 ^ e
      _ ≤ 2 ^ (53 : ℤ) * 2 ^ e := mul_le_mul_of_nonneg_right hle' (zpow_two_pos e).le
      _ = 2 ^ (53 + e) := (zpow_add₀ two_ne_zero _ _).symm
      _ < 2 ^ (1024 : ℤ) := zpow_lt_zpow_right₀ (by norm_num) (by omega)
  · rw [zpow_eq_mul_topUnit 53 (by norm_num), ← topUnit, mul_le_mul_iff_left₀ topUnit_pos]
    norm_cast
    omega
  · have hlow : (2 : ℚ) ^ (52 : ℤ) ≤ n := by
      exact_mod_cast hnormal.resolve_left (by omega)
    refine iff_of_true (by omega) ?_
    calc (2 : ℚ) ^ (1024 : ℤ)
      _ ≤ 2 ^ (52 + e) := zpow_two_le (by omega)
      _ = 2 ^ (52 : ℤ) * 2 ^ e := zpow_add₀ two_ne_zero _ _
      _ ≤ n * 2 ^ e := mul_le_mul_of_nonneg_right hlow (zpow_two_pos e).le

/-- The bits of a rounded fraction are those of the rounded value, or of infinity if they are
smaller. -/
theorem exists_units_of_nearestBits (num : Nat) (hden : den ≠ 0) :
    ∃ n e, IsUnits n e ∧ rounded ((num : ℚ) / den) = n * 2 ^ e ∧
      nearestBits num den = min infinityBits ((e + 1074).toNat * 2 ^ 52 + n) := by
  rcases Nat.eq_zero_or_pos num with rfl | hnum
  · refine ⟨0, -1074, ⟨le_rfl, Nat.zero_le _, .inl rfl⟩, ?_, ?_⟩
    · rw [Nat.cast_zero, zero_div, rounded_zero, zero_mul]
    · rw [nearestBits, if_pos rfl]
      decide
  have hden' : (0 : ℚ) < den := by exact_mod_cast Nat.pos_of_ne_zero hden
  obtain ⟨q, hqdef⟩ : ∃ q : ℚ, q = num / den := ⟨_, rfl⟩
  have hq : 0 < q := hqdef ▸ div_pos (by exact_mod_cast hnum) hden'
  have hunit : max (floorLog2 num den - 52) (-1074) = unitExponent q := by
    rw [floorLog2_eq hnum.ne' hden, unitExponent, abs_of_pos hq, hqdef]
  obtain ⟨n, hn⟩ : ∃ n, n = roundDiv (num * natPow 2 (-unitExponent q))
      (den * natPow 2 (unitExponent q)) := ⟨_, rfl⟩
  have hcast : (n : Int) = roundEven (q / 2 ^ unitExponent q) := by
    rw [hn, cast_roundDiv (Nat.mul_ne_zero hden (natPow_pos two_ne_zero _).ne'),
      cast_mul_natPow_div two_ne_zero, hqdef]
    rfl
  obtain ⟨hhigh, hlow⟩ := roundEven_units_bounds hq
  refine ⟨n, unitExponent q, ⟨neg_le_unitExponent q, by omega, by omega⟩, ?_, ?_⟩
  · rw [← hqdef, rounded, ← hcast, Int.cast_natCast]
  · simp only [nearestBits, if_neg hnum.ne', hunit, ← hn, Nat.pow_eq]

end Plotter.Double
