import Plotter.Proofs.ExactValues

/-!
# Arithmetic as rounding

The sum, the difference, the product and the quotient of two doubles are the rounded exact ones,
brought between the infinities. A result is computed with more digits than a double has: a
significand, and two bits for what lies below it. The first of these tells whether that is at least
half a unit, the second whether anything else is left. They are enough for the rounding to the
nearest.
-/

namespace Plotter.Double

open Float.Model (Format UnpackedFloat totalExponent)
open Float.Model.UnpackedFloat

/-- The significand with its two bits stands for a number. -/
structure Represents (em : ExtendedMantissa) (y : ℚ) : Prop where
  floor : ⌊y⌋ = em.mantissa
  roundBit : em.roundBit = true ↔ 1 ≤ 2 * Int.fract y
  stickyBit : em.stickyBit = true ↔ 2 * Int.fract y ≠ 0 ∧ 2 * Int.fract y ≠ 1

/-- The result before packing is a number: the exact one, rounded. -/
structure RoundsTo (u : UnpackedFloat) (q : ℚ) : Prop where
  not_nan : u.isNaN = false
  canonical : (magnitudeOf u).IsCanonical
  exactValue_eq : exactValue u = rounded q

/-- The result is the exact one, rounded, or an infinity if that is too large. -/
structure IsRounded (x : Float) (q : ℚ) : Prop where
  not_nan : x.isNaN = false
  value_eq_saturated : value x = saturated (rounded q)

variable {x y : Float} {u v : UnpackedFloat} {s : Sign} {m n : Nat} {e k : Int} {q r : ℚ}
  {e' : Int} {em : ExtendedMantissa} {acc : Accuracy}

/-! ## The two bits below the significand -/

theorem represents_exact (m : Nat) : Represents (.ofMantissaAndAccuracy m .exact) m := by
  have hfract : Int.fract (m : ℚ) = 0 := Int.fract_natCast m
  refine ⟨Int.floor_natCast m, ?_, ?_⟩
  · rw [hfract]
    exact iff_of_false nofun (by norm_num)
  · rw [hfract]
    exact iff_of_false nofun fun h => h.1 (mul_zero 2)

theorem mantissa_ofMantissaAndAccuracy (m : Nat) (acc : Accuracy) :
    (ExtendedMantissa.ofMantissaAndAccuracy m acc).mantissa = m := by
  cases acc with
  | exact => rfl
  | inexact position => cases position <;> rfl

/-- A shift to the right halves the number and keeps the two bits right. -/
theorem Represents.shiftRightOne (h : Represents em q) : Represents em.shiftRightOne (q / 2) := by
  have hq := Int.floor_add_fract q
  have hnonneg := Int.fract_nonneg q
  have hlt := Int.fract_lt_one q
  rw [h.floor, Int.cast_natCast] at hq
  have hmod : (em.mantissa : ℚ) = 2 * (em.mantissa / 2 : Nat) + (em.mantissa % 2 : Nat) := by
    exact_mod_cast (Nat.div_add_mod em.mantissa 2).symm
  have hodd : ((em.mantissa % 2 : Nat) : ℚ) = 0 ∨ ((em.mantissa % 2 : Nat) : ℚ) = 1 := by
    exact_mod_cast Nat.mod_two_eq_zero_or_one em.mantissa
  have hfloor : ⌊q / 2⌋ = ((em.mantissa / 2 : Nat) : Int) := by
    rw [Int.floor_eq_iff, Int.cast_natCast]
    rcases hodd with hodd | hodd <;> constructor <;> linarith
  have hfract : 2 * Int.fract (q / 2) = (em.mantissa % 2 : Nat) + Int.fract q := by
    rw [Int.fract, hfloor, Int.cast_natCast]
    linarith
  refine ⟨hfloor, ?_, ?_⟩
  · show (em.mantissa % 2 != 0) = true ↔ _
    rw [hfract, bne_iff_ne, ← Nat.cast_ne_zero (R := ℚ)]
    rcases hodd with hodd | hodd
    · exact iff_of_false (absurd hodd) (by linarith)
    · exact iff_of_true (by linarith) (by linarith)
  · -- What is left below the new round bit is the whole fraction.
    have hrest : 2 * Int.fract (q / 2) ≠ 0 ∧ 2 * Int.fract (q / 2) ≠ 1 ↔ Int.fract q ≠ 0 := by
      rw [hfract]
      rcases hodd with hodd | hodd <;> rw [hodd] <;> constructor
      · exact fun ⟨h, _⟩ => by rwa [zero_add] at h
      · exact fun h => ⟨by rwa [zero_add], by linarith⟩
      · exact fun ⟨_, h⟩ hzero => h (by rw [hzero, add_zero])
      · exact fun h => ⟨by linarith, fun hone => h (by linarith)⟩
    show (em.roundBit || em.stickyBit) = true ↔ _
    rw [hrest, Bool.or_eq_true, h.roundBit, h.stickyBit]
    constructor
    · rintro (hround | ⟨hsticky, -⟩) hzero
      · linarith
      · exact hsticky (by rw [hzero, mul_zero])
    · intro hne
      rcases lt_or_ge (2 * Int.fract q) 1 with hhalf | hhalf
      · exact .inr ⟨mul_ne_zero two_ne_zero hne, hhalf.ne⟩
      · exact .inl hhalf

theorem Represents.shiftRight (h : Represents em q) (n : Nat) :
    Represents (em >>> n) (q / 2 ^ n) := by
  show Represents (n.repeat ExtendedMantissa.shiftRightOne em) _
  induction n with
  | zero => rwa [pow_zero, div_one]
  | succ n ih =>
    rw [pow_succ, ← div_div]
    exact ih.shiftRightOne

/-- The bits decide the rounding to an integer. -/
theorem Represents.roundedMantissa_eq (h : Represents em q) :
    (em.roundedMantissa : Int) = roundEven q := by
  obtain ⟨hfloor, hround, hsticky⟩ := h
  obtain ⟨m, r, t⟩ := em
  have hnonneg := Int.fract_nonneg q
  dsimp only at hfloor hround hsticky
  rw [roundEven, hfloor]
  cases r with
  | false =>
    have hlt : 2 * Int.fract q < 1 := not_le.1 fun h => Bool.false_ne_true (hround.2 h)
    rw [if_pos (.inl hlt)]
    cases t <;> rfl
  | true =>
    have hle : 1 ≤ 2 * Int.fract q := hround.1 rfl
    cases t with
    | false =>
      have htie : 2 * Int.fract q = 1 := by
        by_contra hne
        exact Bool.false_ne_true (hsticky.2 ⟨by linarith, hne⟩)
      have heven : Even (m : Int) ↔ m % 2 = 0 := by rw [Int.even_coe_nat, Nat.even_iff]
      show ((m + m % 2 : Nat) : Int) = _
      rcases Nat.mod_two_eq_zero_or_one m with hm | hm
      · rw [if_pos (.inr ⟨htie, heven.2 hm⟩), hm, add_zero]
      · rw [if_neg, hm, Nat.cast_add, Nat.cast_one]
        rintro (h | ⟨-, h⟩)
        · exact hle.not_gt h
        · exact absurd (heven.1 h) (by omega)
    | true =>
      have hne : 2 * Int.fract q ≠ 1 := (hsticky.1 rfl).2
      rw [if_neg fun h => h.elim hle.not_gt fun h => hne h.1]
      rfl

/-! ## Rounding to the format -/

theorem targetExponent_eq (m : Nat) (e : Int) :
    Format.binary64.targetExponent (totalExponent m e) = max (m.log2 + e - 52) (-1074) := by
  show max ((m.log2 + 1 + e : Int) - 53) (-1074) = _
  congr 1
  omega

/-- The exponent to which the rounding shifts is that of the unit of the value. -/
theorem targetExponent_eq_unitExponent (hfloor : ⌊q⌋ = (m : Int)) (hq : 0 < q)
    (henough : 2 ^ 52 ≤ m ∨ e ≤ -1074) :
    Format.binary64.targetExponent (totalExponent m e) = unitExponent (q * 2 ^ e) := by
  have hunit := zpow_two_pos e
  have hpos : 0 < q * 2 ^ e := mul_pos hq hunit
  rw [targetExponent_eq]
  refine (unitExponent_eq hpos.ne' (le_max_right _ _) ?_ ?_).symm
  · have hq' : q < 2 ^ ((m.log2 : Int) + 1) := by
      have hhigh : q < m + 1 := by
        have hlt := Int.lt_floor_add_one q
        rwa [hfloor, Int.cast_natCast] at hlt
      have hm : m + 1 ≤ 2 ^ (m.log2 + 1) := Nat.lt_log2_self
      exact hhigh.trans_le (by exact_mod_cast hm)
    rw [abs_of_pos hpos]
    calc q * 2 ^ e
      _ < 2 ^ ((m.log2 : Int) + 1) * 2 ^ e := mul_lt_mul_of_pos_right hq' hunit
      _ = 2 ^ ((m.log2 : Int) + 1 + e) := (zpow_add₀ two_ne_zero _ _).symm
      _ ≤ 2 ^ (max (m.log2 + e - 52) (-1074) + 53) := zpow_two_le (by omega)
  · rcases le_or_gt ((m.log2 : Int) + e - 52) (-1074) with hmin | hnormal
    · exact .inl (max_eq_right hmin)
    refine .inr ?_
    have hm : m ≠ 0 := by
      rintro rfl
      have hlog : Nat.log2 0 = 0 := rfl
      omega
    have hq' : 2 ^ (m.log2 : Int) ≤ q := by
      have hlow := Int.floor_le q
      rw [hfloor, Int.cast_natCast] at hlow
      exact (zpow_log2_le hm).trans hlow
    rw [abs_of_pos hpos, max_eq_left hnormal.le, sub_add_cancel, zpow_add₀ two_ne_zero]
    exact mul_le_mul_of_nonneg_right hq' hunit.le

/-- With enough digits the target exponent is not below the given one, so digits are only dropped.
-/
theorem le_targetExponent (henough : 2 ^ 52 ≤ m ∨ e ≤ -1074) :
    e ≤ Format.binary64.targetExponent (totalExponent m e) := by
  rw [targetExponent_eq]
  rcases henough with hm | he
  · have hlog : 52 ≤ m.log2 := (Nat.le_log2 (by omega)).2 hm
    omega
  · omega

theorem shiftToTargetExponent_eq
    (h : e ≤ Format.binary64.targetExponent (totalExponent m e)) :
    shiftToTargetExponent .binary64 m e acc =
      (ExtendedMantissa.ofMantissaAndAccuracy m acc >>>
        (Format.binary64.targetExponent (totalExponent m e) - e).toNat,
        Format.binary64.targetExponent (totalExponent m e)) := by
  refine Prod.ext rfl ?_
  show e + _ = _
  rw [Int.toNat_of_nonneg (by omega)]
  omega

/-- A rounded significand is shifted once more if a carry has made it too long. -/
theorem exists_shift_of_rounded (hm : m ≤ 2 ^ 53) (he : -1074 ≤ e)
    (hnormal : 2 ^ 52 ≤ m ∨ e = -1074) :
    ∃ em k, shiftToTargetExponent .binary64 m e .exact = (em, k) ∧
      (⟨em.mantissa, k⟩ : Magnitude).IsCanonical ∧ (em.mantissa : ℚ) * 2 ^ k = m * 2 ^ e := by
  rw [shiftToTargetExponent, targetExponent_eq, shiftToExponent]
  rcases hm.lt_or_eq with hlt | rfl
  · have hlog : m.log2 < 53 := by
      rcases Nat.eq_zero_or_pos m with rfl | hpos
      · decide
      · exact (Nat.log2_lt hpos.ne').2 hlt
    have hshift : (max ((m.log2 : Int) + e - 52) (-1074) - e).toNat = 0 := by omega
    rw [hshift, Int.ofNat_zero, add_zero]
    exact ⟨_, e, rfl, ⟨hlt, he, hnormal⟩, rfl⟩
  · have hlog : Nat.log2 (2 ^ 53) = 53 := Nat.log2_two_pow
    have hshift : (max (((Nat.log2 (2 ^ 53) : Nat) : Int) + e - 52) (-1074) - e).toNat = 1 := by
      omega
    rw [hshift]
    refine ⟨_, e + 1, rfl, ⟨?_, ?_, .inl ?_⟩, ?_⟩
    · show 2 ^ 53 / 2 < 2 ^ 53
      norm_num
    · show -1074 ≤ e + 1
      omega
    · show 2 ^ 52 ≤ 2 ^ 53 / 2
      norm_num
    · show ((2 ^ 53 / 2 : Nat) : ℚ) * 2 ^ (e + 1) = _
      rw [zpow_add_one₀ two_ne_zero]
      push_cast
      ring

theorem rounded_factor_mul (s : Sign) (q : ℚ) : rounded (factor s * q) = factor s * rounded q := by
  cases s with
  | negative => rw [factor, neg_one_mul, neg_one_mul, rounded_neg]
  | positive => rw [factor, one_mul, one_mul]

theorem roundsTo_zero (s : Sign) : RoundsTo (.zero s) 0 :=
  ⟨rfl, ⟨by norm_num [magnitudeOf], le_rfl, .inr rfl⟩, by rw [exactValue_zero, rounded_zero]⟩

/-- A canonical magnitude is a result if it is the rounded one. -/
theorem roundsTo_of_canonical (hcanonical : (⟨n, k⟩ : Magnitude).IsCanonical)
    (hvalue : (n : ℚ) * 2 ^ k = rounded q) :
    RoundsTo (if h : n = 0 then .zero s else .finite s n k (Nat.pos_of_ne_zero h))
      (factor s * q) := by
  split
  · rename_i hzero
    refine ⟨rfl, (roundsTo_zero s).canonical, ?_⟩
    rw [exactValue_zero, rounded_factor_mul, ← hvalue, hzero, Nat.cast_zero, zero_mul, mul_zero]
  · refine ⟨rfl, hcanonical, ?_⟩
    rw [rounded_factor_mul, ← hvalue]
    rfl

/-- Rounded at the target exponent, a value has at most 53 binary digits, or just one more. -/
theorem roundEven_bounds_of_target (hfloor : ⌊q⌋ = (m : Int)) (hq : 0 ≤ q)
    (henough : 2 ^ 52 ≤ m ∨ e ≤ -1074)
    (hk : k = Format.binary64.targetExponent (totalExponent m e))
    (hround : (n : Int) = roundEven (q * 2 ^ e / 2 ^ k)) :
    n ≤ 2 ^ 53 ∧ (2 ^ 52 ≤ n ∨ k = -1074) ∧ (n : ℚ) * 2 ^ k = rounded (q * 2 ^ e) := by
  rcases hq.eq_or_lt with rfl | hpos
  · have hzero : m = 0 := by
      rw [Int.floor_zero] at hfloor
      omega
    have hunit : k = -1074 := by
      have hlog : Nat.log2 0 = 0 := rfl
      rw [hk, targetExponent_eq, hzero]
      omega
    have hnone : n = 0 := by
      rw [zero_mul, zero_div, ← Int.cast_zero, roundEven_intCast] at hround
      omega
    rw [hnone, zero_mul, rounded_zero]
    exact ⟨by norm_num, .inr hunit, by rw [Nat.cast_zero, zero_mul]⟩
  · have hunit : k = unitExponent (q * 2 ^ e) :=
      hk.trans (targetExponent_eq_unitExponent hfloor hpos henough)
    have hunits := roundEven_units_bounds (mul_pos hpos (zpow_two_pos e))
    rw [← hunit, ← hround] at hunits
    refine ⟨by omega, by omega, ?_⟩
    rw [rounded, ← hunit, ← hround]
    rfl

/-- Rounding the significand gives the rounded value. -/
theorem roundsTo_roundWithAccuracy (h : Represents (.ofMantissaAndAccuracy m acc) q) (hq : 0 ≤ q)
    (henough : 2 ^ 52 ≤ m ∨ e ≤ -1074) :
    RoundsTo (roundWithAccuracy .binary64 s m e acc) (factor s * (q * 2 ^ e)) := by
  have hle := le_targetExponent henough
  have hfirst : shiftToTargetExponent .binary64 m e acc = _ := shiftToTargetExponent_eq hle
  obtain ⟨t, ht⟩ : ∃ t, t = Format.binary64.targetExponent (totalExponent m e) := ⟨_, rfl⟩
  rw [← ht] at hfirst hle
  have hmin : -1074 ≤ t := by
    rw [ht, targetExponent_eq]
    exact le_max_right _ _
  obtain ⟨r, hr⟩ : ∃ r, r = (ExtendedMantissa.ofMantissaAndAccuracy m acc >>>
    (t - e).toNat).roundedMantissa := ⟨_, rfl⟩
  have hscale : q / 2 ^ (t - e).toNat = q * 2 ^ e / 2 ^ t := by
    rw [← zpow_natCast, Int.toNat_of_nonneg (by omega), zpow_sub₀ two_ne_zero, div_div_eq_mul_div]
  have hround : (r : Int) = roundEven (q * 2 ^ e / 2 ^ t) := by
    rw [hr, (h.shiftRight (t - e).toNat).roundedMantissa_eq, hscale]
  have hfloor : ⌊q⌋ = (m : Int) := h.floor.trans (by rw [mantissa_ofMantissaAndAccuracy])
  obtain ⟨hm, hnormal, hvalue⟩ := roundEven_bounds_of_target hfloor hq henough ht hround
  obtain ⟨em, k, hsecond, hcanonical, hk⟩ := exists_shift_of_rounded hm hmin hnormal
  rw [hr] at hsecond
  simp only [roundWithAccuracy, hfirst, hsecond]
  exact roundsTo_of_canonical hcanonical (hk.trans hvalue)

/-- Shifting digits into the significand keeps the value. -/
theorem decreaseExponent_value (m : Nat) (e k : Int) :
    ((decreaseExponent m e k).1 : ℚ) * 2 ^ (decreaseExponent m e k).2 = m * 2 ^ e := by
  show ((m <<< (e - k).toNat : Nat) : ℚ) * 2 ^ (e - (e - k).toNat) = m * 2 ^ e
  rw [Nat.shiftLeft_eq, Nat.cast_mul, Nat.cast_pow, Nat.cast_ofNat, mul_assoc, ← zpow_natCast,
    ← zpow_add₀ two_ne_zero]
  congr 2
  omega

theorem fst_decreaseExponent_mul (m : Nat) (h : k ≤ e) :
    ((decreaseExponent m e k).1 : ℚ) * 2 ^ k = m * 2 ^ e := by
  have hk : (decreaseExponent m e k).2 = k := by
    show e - ((e - k).toNat : Int) = k
    omega
  rw [← decreaseExponent_value m e k, hk]

/-- An exact magnitude is rounded to the format. -/
theorem roundsTo_round (s : Sign) (hm : 0 < m) (e : Int) :
    RoundsTo (UnpackedFloat.round .binary64 s m e) (factor s * (m * 2 ^ e)) := by
  have hvalue := decreaseExponent_value m e (Format.binary64.targetExponent (totalExponent m e))
  rw [UnpackedFloat.round, ← hvalue]
  refine roundsTo_roundWithAccuracy (represents_exact _) (Nat.cast_nonneg _) ?_
  rw [targetExponent_eq]
  show 2 ^ 52 ≤ m <<< (e - max (m.log2 + e - 52) (-1074)).toNat ∨
    e - (e - max (m.log2 + e - 52) (-1074)).toNat ≤ -1074
  rcases le_or_gt ((m.log2 : Int) + e - 52) (-1074) with hmin | hnormal
  · exact .inr (by omega)
  · refine .inl ?_
    rw [Nat.shiftLeft_eq]
    calc 2 ^ 52
      _ ≤ 2 ^ (m.log2 + (e - max (m.log2 + e - 52) (-1074)).toNat) :=
        Nat.pow_le_pow_right two_pos (by omega)
      _ = 2 ^ m.log2 * 2 ^ (e - max (m.log2 + e - 52) (-1074)).toNat := pow_add _ _ _
      _ ≤ m * 2 ^ (e - max (m.log2 + e - 52) (-1074)).toNat :=
        Nat.mul_le_mul_right _ (Nat.log2_self_le hm.ne')

/-- A signed significand is rounded as a whole. -/
theorem roundsTo_normalize (i e : Int) (s : Sign) :
    RoundsTo (UnpackedFloat.normalize .binary64 i e s) (i * 2 ^ e) := by
  rw [UnpackedFloat.normalize]
  rcases lt_trichotomy i 0 with hi | rfl | hi
  · rw [compare_lt_iff_lt.2 hi]
    have hround := roundsTo_round .negative (m := (-i).toNat) (by omega) e
    have hcast : (((-i).toNat : Nat) : ℚ) = -i := by
      exact_mod_cast Int.toNat_of_nonneg (a := -i) (by omega)
    have hneg : factor .negative * (-(i : ℚ) * 2 ^ e) = i * 2 ^ e := by
      rw [factor]
      ring
    rwa [hcast, hneg] at hround
  · rw [compare_eq_iff_eq.2 rfl, Int.cast_zero, zero_mul]
    exact roundsTo_zero s
  · rw [compare_gt_iff_gt.2 hi]
    have hround := roundsTo_round .positive (m := i.toNat) (by omega) e
    have hcast : ((i.toNat : Nat) : ℚ) = i := by
      exact_mod_cast Int.toNat_of_nonneg (a := i) (by omega)
    rwa [hcast, factor, one_mul] at hround

/-! ## Sums and differences -/

theorem cast_apply (s : Sign) (n : Nat) : ((s.apply n : Int) : ℚ) = factor s * n := by
  cases s with
  | negative =>
    show ((-(n : Int) : Int) : ℚ) = -1 * n
    rw [Int.cast_neg, Int.cast_natCast, neg_one_mul]
  | positive =>
    show ((n : Int) : ℚ) = 1 * n
    rw [Int.cast_natCast, one_mul]

/-- A finite number needs no rounding. -/
theorem roundsTo_self (hu : u.isFinite = true) (hcanonical : (magnitudeOf u).IsCanonical) :
    RoundsTo u (exactValue u) := by
  have hnan : u.isNaN = false := by
    cases u with
    | notANumber | infinity => cases hu
    | zero | finite => rfl
  have hrepresentable : Representable (magnitudeOf u).value :=
    ⟨(magnitudeOf u).significand, (magnitudeOf u).exponent,
      by simpa using hcanonical.significand_lt, hcanonical.le_exponent, rfl⟩
  refine ⟨hnan, hcanonical, ?_⟩
  rw [exactValue, rounded_factor_mul, rounded_of_representable hrepresentable]

/-- The sum of finite numbers is rounded. -/
theorem roundsTo_add (hu : u.isFinite = true) (hv : v.isFinite = true)
    (hcu : (magnitudeOf u).IsCanonical) (hcv : (magnitudeOf v).IsCanonical) :
    RoundsTo (UnpackedFloat.add .binary64 u v) (exactValue u + exactValue v) := by
  cases u with
  | notANumber | infinity => cases hu
  | zero s =>
    rw [exactValue_zero, zero_add]
    cases v with
    | notANumber | infinity => cases hv
    | zero s' =>
      rw [exactValue_zero, UnpackedFloat.add]
      split
      · exact roundsTo_zero s
      · exact roundsTo_zero .positive
    | finite s' m' e' hm' => exact roundsTo_self hv hcv
  | finite s m e hm =>
    cases v with
    | notANumber | infinity => cases hv
    | zero s' =>
      rw [exactValue_zero, add_zero]
      exact roundsTo_self hu hcu
    | finite s' m' e' hm' =>
      have hsum : exactValue (.finite s m e hm) + exactValue (.finite s' m' e' hm') =
          ((s.apply (decreaseExponent m e (min e e')).1 +
            s'.apply (decreaseExponent m' e' (min e e')).1 : Int) : ℚ) * 2 ^ min e e' := by
        rw [Int.cast_add, cast_apply, cast_apply, add_mul, mul_assoc, mul_assoc,
          fst_decreaseExponent_mul m (min_le_left e e'),
          fst_decreaseExponent_mul m' (min_le_right e e')]
        rfl
      rw [hsum]
      exact roundsTo_normalize _ _ _

/-- A difference is the sum with the negated number. -/
theorem sub_eq_add_negated (u v : UnpackedFloat) :
    UnpackedFloat.sub .binary64 u v = UnpackedFloat.add .binary64 u v.neg := by
  cases u with
  | notANumber => rfl
  | infinity s => cases v <;> rfl
  | zero s => cases v <;> rfl
  | finite s m e hm =>
    cases v with
    | notANumber | infinity | zero => rfl
    | finite s' m' e' hm' =>
      have hneg (n : Nat) : (-s').apply n = -s'.apply n := by
        cases s' with
        | negative => exact (Int.neg_neg n).symm
        | positive => rfl
      show UnpackedFloat.normalize _ (_ - _) _ _ = UnpackedFloat.normalize _ (_ + _) _ _
      rw [hneg, Int.sub_eq_add_neg]

/-! ## Products -/

theorem factor_mul (s s' : Sign) : factor (s * s') = factor s * factor s' := by
  cases s <;> cases s'
  · show (1 : ℚ) = -1 * -1
    norm_num
  · show (-1 : ℚ) = -1 * 1
    norm_num
  · show (-1 : ℚ) = 1 * -1
    norm_num
  · show (1 : ℚ) = 1 * 1
    norm_num

theorem factor_div (s s' : Sign) : factor (s / s') = factor s / factor s' := by
  have hdiv : s / s' = s * s' := by cases s <;> cases s' <;> rfl
  have hinv : (factor s')⁻¹ = factor s' := by
    cases s' with
    | negative => exact inv_neg_one
    | positive => exact inv_one
  rw [hdiv, factor_mul, div_eq_mul_inv, hinv]

/-- The product of finite numbers is rounded. -/
theorem roundsTo_mul (hu : u.isFinite = true) (hv : v.isFinite = true)
    (hcu : (magnitudeOf u).IsCanonical) (hcv : (magnitudeOf v).IsCanonical) :
    RoundsTo (UnpackedFloat.mul .binary64 u v) (exactValue u * exactValue v) := by
  cases u with
  | notANumber | infinity => cases hu
  | zero s =>
    rw [exactValue_zero, zero_mul]
    cases v with
    | notANumber | infinity => cases hv
    | zero s' | finite s' => exact roundsTo_zero (s * s')
  | finite s m e hm =>
    cases v with
    | notANumber | infinity => cases hv
    | zero s' =>
      rw [exactValue_zero, mul_zero]
      exact roundsTo_zero (s * s')
    | finite s' m' e' hm' =>
      have hproduct : exactValue (.finite s m e hm) * exactValue (.finite s' m' e' hm') =
          factor (s * s') * (((m * m' : Nat) : ℚ) * 2 ^ (e + e')) := by
        show factor s * (m * 2 ^ e) * (factor s' * (m' * 2 ^ e')) = _
        rw [factor_mul, zpow_add₀ two_ne_zero, Nat.cast_mul]
        ring
      have henough : 2 ^ 52 ≤ m * m' ∨ e + e' ≤ -1074 := by
        rcases hcu.normalized with h | h
        · exact .inl (h.trans (Nat.le_mul_of_pos_right m hm'))
        rcases hcv.normalized with h' | h'
        · exact .inl (h'.trans (Nat.le_mul_of_pos_left m' hm))
        · have he : e = -1074 := h
          have he' : e' = -1074 := h'
          exact .inr (by omega)
      rw [hproduct]
      exact roundsTo_roundWithAccuracy (represents_exact _) (Nat.cast_nonneg _) henough

/-! ## Quotients -/

/-- The bits for the rest of a division compare twice the rest with the divisor. -/
theorem bits_accuracyOfFraction {den : Nat} (hden : 0 < den) (m rest : Nat) :
    ((ExtendedMantissa.ofMantissaAndAccuracy m (accuracyOfFraction rest den)).roundBit = true ↔
        den ≤ 2 * rest) ∧
      ((ExtendedMantissa.ofMantissaAndAccuracy m (accuracyOfFraction rest den)).stickyBit = true ↔
        2 * rest ≠ 0 ∧ 2 * rest ≠ den) := by
  rw [accuracyOfFraction]
  rcases Nat.eq_zero_or_pos rest with rfl | hrest
  · exact ⟨iff_of_false nofun (by omega), iff_of_false nofun (by omega)⟩
  rw [if_neg hrest.ne']
  rcases lt_trichotomy (2 * rest) den with h | h | h
  · rw [compare_lt_iff_lt.2 h]
    exact ⟨iff_of_false nofun (by omega), iff_of_true rfl (by omega)⟩
  · rw [compare_eq_iff_eq.2 h]
    exact ⟨iff_of_true rfl (by omega), iff_of_false nofun (by omega)⟩
  · rw [compare_gt_iff_gt.2 h]
    exact ⟨iff_of_true rfl (by omega), iff_of_true rfl (by omega)⟩

/-- The significand of a quotient and the bits for its rest stand for the exact quotient. -/
theorem represents_accuracyOfFraction {num den : Nat} (hden : 0 < den) :
    Represents (.ofMantissaAndAccuracy (num / den) (accuracyOfFraction (num % den) den))
      ((num : ℚ) / den) := by
  have hden' : (0 : ℚ) < den := by exact_mod_cast hden
  have hfract := two_mul_fract_natCast_div num den
  have hround : 1 ≤ 2 * Int.fract ((num : ℚ) / den) ↔ den ≤ 2 * (num % den) := by
    rw [hfract, one_le_div hden', Nat.cast_le]
  have hzero : 2 * Int.fract ((num : ℚ) / den) = 0 ↔ 2 * (num % den) = 0 := by
    rw [hfract, div_eq_zero_iff, or_iff_left hden'.ne', Nat.cast_eq_zero]
  obtain ⟨hroundBit, hstickyBit⟩ := bits_accuracyOfFraction hden (num / den) (num % den)
  refine ⟨?_, hroundBit.trans hround.symm, ?_⟩
  · rw [floor_natCast_div, mantissa_ofMantissaAndAccuracy]
  · rw [hstickyBit, ne_eq, ne_eq, ne_eq, ne_eq, hzero, two_mul_fract_eq_one_iff hden.ne']

/-- Enough digits are computed for the quotient. -/
theorem quotient_enough {m m' : Nat} (hm : m ≠ 0) (hm' : 0 < m')
    (ht : k = min (e - e') (max ((m.log2 : Int) + 1 + e - (m'.log2 + 1 + e') - 53) (-1074))) :
    2 ^ 52 ≤ m <<< (e - e' - k).toNat / m' ∨ k ≤ -1074 := by
  rcases le_or_gt ((m.log2 : Int) + 1 + e - (m'.log2 + 1 + e') - 53) (-1074) with hmin | hnormal
  · exact .inr (by omega)
  · refine .inl ((Nat.le_div_iff_mul_le hm').2 ?_)
    have hlog : m' < 2 ^ (m'.log2 + 1) := Nat.lt_log2_self
    rw [Nat.shiftLeft_eq]
    calc 2 ^ 52 * m'
      _ ≤ 2 ^ 52 * 2 ^ (m'.log2 + 1) := Nat.mul_le_mul_left _ hlog.le
      _ = 2 ^ (52 + (m'.log2 + 1)) := (pow_add _ _ _).symm
      _ ≤ 2 ^ (m.log2 + (e - e' - k).toNat) := Nat.pow_le_pow_right two_pos (by omega)
      _ = 2 ^ m.log2 * 2 ^ (e - e' - k).toNat := pow_add _ _ _
      _ ≤ m * 2 ^ (e - e' - k).toNat := Nat.mul_le_mul_right _ (Nat.log2_self_le hm)

/-- The quotient of finite numbers is rounded, if the divisor is not zero. -/
theorem roundsTo_div (hu : u.isFinite = true) (hv : v.isFinite = true) (hne : exactValue v ≠ 0) :
    RoundsTo (UnpackedFloat.div .binary64 u v) (exactValue u / exactValue v) := by
  cases v with
  | notANumber | infinity => cases hv
  | zero s' => exact absurd (exactValue_zero s') hne
  | finite s' m' e' hm' =>
    cases u with
    | notANumber | infinity => cases hu
    | zero s =>
      rw [exactValue_zero, zero_div]
      exact roundsTo_zero (s / s')
    | finite s m e hm =>
      obtain ⟨t, ht⟩ : ∃ t, t = min (e - e')
        (Format.binary64.targetExponent (totalExponent m e - totalExponent m' e')) := ⟨_, rfl⟩
      have hcore : divCore .binary64 m e m' e' =
          (m <<< (e - e' - t).toNat / m', t,
            accuracyOfFraction (m <<< (e - e' - t).toNat % m') m') := by
        rw [ht]
        rfl
      have hshift : ((m <<< (e - e' - t).toNat : Nat) : ℚ) * 2 ^ t = m * 2 ^ (e - e') :=
        fst_decreaseExponent_mul m (ht.trans_le (min_le_left _ _))
      have hquotient : exactValue (.finite s m e hm) / exactValue (.finite s' m' e' hm') =
          factor (s / s') * (((m <<< (e - e' - t).toNat : Nat) : ℚ) / m' * 2 ^ t) := by
        calc factor s * (m * 2 ^ e) / (factor s' * (m' * 2 ^ e'))
          _ = factor s / factor s' * (m * (2 ^ e / 2 ^ e') / m') := by ring
          _ = factor (s / s') * (m * 2 ^ (e - e') / m') := by
            rw [factor_div, zpow_sub₀ two_ne_zero]
          _ = factor (s / s') * (((m <<< (e - e' - t).toNat : Nat) : ℚ) / m' * 2 ^ t) := by
            rw [← hshift]
            ring
      rw [hquotient, UnpackedFloat.div]
      simp only [hcore]
      exact roundsTo_roundWithAccuracy (represents_accuracyOfFraction hm')
        (div_nonneg (Nat.cast_nonneg _) (Nat.cast_nonneg _)) (quotient_enough hm.ne' hm' ht)

/-! ## The operations -/

/-- Packing brings a rounded result between the infinities. -/
theorem RoundsTo.isRounded_packed (h : RoundsTo u q) : IsRounded (packed u) q := by
  refine ⟨(isNaN_packed u).trans h.not_nan, ?_⟩
  rw [value_packed h.not_nan h.canonical, h.exactValue_eq]

/-- A result is finite if the exact one is closer to zero than the bound. -/
theorem IsRounded.isFinite_iff (h : IsRounded x q) : x.isFinite = true ↔ |q| < overflowBound := by
  rw [Double.isFinite_iff h.not_nan, h.value_eq_saturated, abs_saturated_lt_iff, limit,
    abs_rounded_lt_iff]

/-- A result that is not too large has the rounded value. -/
theorem IsRounded.value_eq (h : IsRounded x q) (hq : |q| < overflowBound) :
    value x = rounded q := by
  rw [h.value_eq_saturated, saturated_of_abs_le (abs_rounded_lt_iff.2 hq).le]

section Operations

variable (hx : x.isFinite = true) (hy : y.isFinite = true)

include hx hy

theorem isRounded_add : IsRounded (x + y) (value x + value y) := by
  rw [value_eq_exactValue (isNaN_of_isFinite hx), value_eq_exactValue (isNaN_of_isFinite hy)]
  exact (roundsTo_add hx hy (isCanonical_unpacked x) (isCanonical_unpacked y)).isRounded_packed

theorem isRounded_sub : IsRounded (x - y) (value x - value y) := by
  have hfinite : (unpacked y).neg.isFinite = true := (isFinite_unpackedNeg _).trans hy
  have hcanonical : (magnitudeOf (unpacked y).neg).IsCanonical := by
    rw [magnitudeOf_neg]
    exact isCanonical_unpacked y
  have hsub : x - y = packed (UnpackedFloat.add .binary64 (unpacked x) (unpacked y).neg) :=
    congrArg packed (sub_eq_add_negated _ _)
  rw [value_eq_exactValue (isNaN_of_isFinite hx), value_eq_exactValue (isNaN_of_isFinite hy), hsub,
    sub_eq_add_neg, ← exactValue_neg]
  exact (roundsTo_add hx hfinite (isCanonical_unpacked x) hcanonical).isRounded_packed

theorem isRounded_mul : IsRounded (x * y) (value x * value y) := by
  rw [value_eq_exactValue (isNaN_of_isFinite hx), value_eq_exactValue (isNaN_of_isFinite hy)]
  exact (roundsTo_mul hx hy (isCanonical_unpacked x) (isCanonical_unpacked y)).isRounded_packed

theorem isRounded_div (hne : value y ≠ 0) : IsRounded (x / y) (value x / value y) := by
  rw [value_eq_exactValue (isNaN_of_isFinite hy)] at hne
  rw [value_eq_exactValue (isNaN_of_isFinite hx), value_eq_exactValue (isNaN_of_isFinite hy)]
  exact (roundsTo_div hx hy hne).isRounded_packed

end Operations

/-! ## Natural numbers -/

/-- A natural number of at most 53 binary digits can be represented. -/
theorem representable_natCast (hn : n < 2 ^ 53) : Representable n :=
  ⟨n, 0, by rw [Nat.abs_cast]; exact_mod_cast hn, by norm_num, by simp⟩

theorem abs_natCast_lt_overflowBound (hn : n < 2 ^ 53) : |(n : ℚ)| < overflowBound := by
  have hlt : |(n : ℚ)| < 2 ^ (53 : ℤ) := by
    rw [Nat.abs_cast]
    exact_mod_cast hn
  rw [← abs_rounded_lt_iff, rounded_of_representable (representable_natCast hn)]
  exact hlt.trans_le (zpow_two_le (by norm_num))

theorem isRounded_toFloat (hn : n < 2 ^ 53) : IsRounded n.toUInt64.toFloat n := by
  have hmod : n % 2 ^ 64 = n := Nat.mod_eq_of_lt (by omega)
  have hnormalize := roundsTo_normalize ((n % 2 ^ 64 : Nat) : Int) 0 .positive
  rw [zpow_zero, mul_one, Int.cast_natCast] at hnormalize
  have hpacked : IsRounded n.toUInt64.toFloat (n % 2 ^ 64 : Nat) := hnormalize.isRounded_packed
  rwa [hmod] at hpacked

theorem value_ten_pow_zero : value (Float.ofBits 0x3FF0000000000000) = 1 := by
  have hsign : signBit (Float.ofBits 0x3FF0000000000000) = false := by decide +kernel
  have hsignificand : (magnitude (Float.ofBits 0x3FF0000000000000)).significand = 2 ^ 52 := by
    decide +kernel
  have hexponent : (magnitude (Float.ofBits 0x3FF0000000000000)).exponent = -52 := by
    decide +kernel
  rw [value, hsign, Magnitude.value, hsignificand, hexponent]
  norm_num

/-- Natural numbers of at most 53 binary digits are doubles. -/
theorem isRounded_ofNat (hn : n < 2 ^ 53) : IsRounded (Float.ofNat n) n := by
  have hone : (Float.ofBits 0x3FF0000000000000).isFinite = true := by decide +kernel
  have hfast : Float.ofNat n = n.toUInt64.toFloat * Float.ofBits 0x3FF0000000000000 := by
    show Float.ofScientific n false 0 = _
    rw [Float.ofScientific, dif_pos ⟨hn, by decide⟩]
    rfl
  have hfloat := isRounded_toFloat hn
  have hbound := abs_natCast_lt_overflowBound hn
  have hproduct := isRounded_mul (hfloat.isFinite_iff.2 hbound) hone
  rwa [← hfast, hfloat.value_eq hbound, rounded_of_representable (representable_natCast hn),
    value_ten_pow_zero, mul_one] at hproduct

theorem isFinite_ofNat (hn : n < 2 ^ 53) : (Float.ofNat n).isFinite = true :=
  (isRounded_ofNat hn).isFinite_iff.2 (abs_natCast_lt_overflowBound hn)

/-- The double of such a number has its value. -/
theorem value_ofNat (hn : n < 2 ^ 53) : value (Float.ofNat n) = n := by
  rw [(isRounded_ofNat hn).value_eq (abs_natCast_lt_overflowBound hn),
    rounded_of_representable (representable_natCast hn)]

theorem isFinite_zero : (0 : Float).isFinite = true := isFinite_ofNat (by norm_num)

theorem value_zero : value 0 = 0 := (value_ofNat (by norm_num)).trans Nat.cast_zero

theorem isFinite_one : (1 : Float).isFinite = true := isFinite_ofNat (by norm_num)

theorem value_one : value 1 = 1 := (value_ofNat (by norm_num)).trans Nat.cast_one

end Plotter.Double
