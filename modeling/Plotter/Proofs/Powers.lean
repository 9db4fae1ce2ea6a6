import Plotter.Elementary.Total
import Plotter.Proofs.Arithmetic
import Plotter.Proofs.SignBits

/-!
# Powers

A power faults in two ways. It is outside the domain for a negative base with a fractional exponent,
and for a zero with a negative exponent; it overflows if the rounded value is infinite although both
numbers are finite. The total power gives no number in the first case, and an infinity in the
others, which is negative exactly for an odd power of a base with the sign bit set. Whether the
exponent is odd is decided on its exact value.
-/

namespace Plotter

namespace Double

/-- The double is a whole number. -/
def IsWhole (x : Float) : Prop := x.isFinite = true ∧ ∃ n : ℤ, value x = n

/-- The double is an odd number. -/
def IsOdd (x : Float) : Prop := x.isFinite = true ∧ ∃ k : ℤ, value x = 2 * k + 1

variable {x : Float} {n : ℤ}

/-! ## Whole numbers -/

/-- A fraction of powers of two is a whole number only if the denominator divides. -/
theorem natPow_dvd_of_eq {m k : Nat} {e : Int} (h : (m : ℚ) * 2 ^ e = k) : natPow 2 (-e) ∣ m := by
  have hpow := cast_natPow two_ne_zero e
  have hmul : m * natPow 2 e = k * natPow 2 (-e) := by
    have hcast : (m : ℚ) * natPow 2 e = k * natPow 2 (-e) := by
      rw [hpow, ← h]
      push_cast
      ring
    exact_mod_cast hcast
  rcases le_or_gt 0 e with he | he
  · have hone : natPow 2 (-e) = 1 := by
      rw [natPow, Int.toNat_of_nonpos (by omega)]
    rw [hone]
    exact one_dvd m
  · have hone : natPow 2 e = 1 := by
      rw [natPow, Int.toNat_of_nonpos he.le]
    rw [hone, mul_one] at hmul
    exact ⟨k, by rw [hmul, mul_comm]⟩

/-- If the division leaves no rest, the quotient is the exact value. -/
theorem value_of_dvd {m : Nat} {e : Int} (h : natPow 2 (-e) ∣ m) :
    ((m / natPow 2 (-e) * natPow 2 e : Nat) : ℚ) = m * 2 ^ e := by
  obtain ⟨k, rfl⟩ := h
  have hpos := natPow_pos two_ne_zero (-e)
  have hpow := cast_natPow two_ne_zero e
  rw [Nat.mul_div_cancel_left _ hpos, Nat.cast_mul, hpow]
  push_cast
  ring

/-- The integer that is read off a double is its value. -/
theorem toInt?_eq_some_iff : toInt? x = some n ↔ x.isFinite = true ∧ value x = n := by
  obtain ⟨scale, hscale⟩ : ∃ scale, scale = natPow 2 (-(magnitude x).exponent) := ⟨_, rfl⟩
  rw [toInt?]
  split
  · rename_i hfinite
    dsimp only
    rw [← hscale]
    split
    · rename_i hmod
      have hdvd := value_of_dvd (e := (magnitude x).exponent)
        (hscale ▸ Nat.dvd_of_mod_eq_zero hmod)
      obtain ⟨k, hk⟩ : ∃ k, k = (magnitude x).significand / scale *
        natPow 2 (magnitude x).exponent := ⟨_, rfl⟩
      rw [← hscale, ← hk] at hdvd
      have hvalue : value x = ((if signBit x then -(k : ℤ) else k : ℤ) : ℚ) := by
        rw [value, Magnitude.value, ← hdvd]
        split
        · rw [neg_one_mul, Int.cast_neg, Int.cast_natCast]
        · rw [one_mul, Int.cast_natCast]
      rw [← hk, Option.some_inj, hvalue, Int.cast_inj, and_iff_right hfinite]
    · rename_i hmod
      refine iff_of_false (Option.some_ne_none n).symm ?_
      rintro ⟨-, hvalue⟩
      have habs : ((magnitude x).significand : ℚ) * 2 ^ (magnitude x).exponent = n.natAbs := by
        rw [← Magnitude.value, ← abs_value, hvalue, Nat.cast_natAbs, Int.cast_abs]
      exact hmod (hscale ▸ Nat.mod_eq_zero_of_dvd (natPow_dvd_of_eq habs))
  · rename_i hfinite
    exact iff_of_false (Option.some_ne_none n).symm fun h => hfinite h.1

/-- There is such an integer if and only if the value is whole. -/
theorem isSome_toInt?_iff : (toInt? x).isSome = true ↔ IsWhole x := by
  simp only [Option.isSome_iff_exists, toInt?_eq_some_iff, IsWhole, exists_and_left]

/-- The test for odd integers is right. -/
theorem isOddInteger_iff : isOddInteger x = true ↔ IsOdd x := by
  rw [isOddInteger]
  split
  · rename_i n hn
    obtain ⟨hfinite, hvalue⟩ := toInt?_eq_some_iff.1 hn
    rw [decide_eq_true_iff]
    constructor
    · intro hodd
      refine ⟨hfinite, n / 2, ?_⟩
      have hdiv : n = 2 * (n / 2) + 1 := by omega
      rw [hvalue]
      exact_mod_cast hdiv
    · rintro ⟨-, k, hk⟩
      rw [hvalue] at hk
      have hn : n = 2 * k + 1 := by exact_mod_cast hk
      omega
  · rename_i hnone
    refine iff_of_false nofun ?_
    rintro ⟨hfinite, k, hk⟩
    have hwhole : IsWhole x := ⟨hfinite, 2 * k + 1, by exact_mod_cast hk⟩
    rw [← isSome_toInt?_iff, hnone] at hwhole
    cases hwhole

/-! ## Signs of finite doubles -/

/-- What equals zero is a zero, of either sign. -/
theorem beq_zero_iff : (x == 0) = true ↔ x.isFinite = true ∧ value x = 0 := by
  constructor
  · intro h
    have hx := isFinite_of_beq h isFinite_zero
    exact ⟨hx, ((beq_iff hx isFinite_zero).1 h).trans value_zero⟩
  · rintro ⟨hx, hvalue⟩
    exact (beq_iff hx isFinite_zero).2 (hvalue.trans value_zero.symm)

theorem beq_one_iff : (x == 1) = true ↔ x.isFinite = true ∧ value x = 1 := by
  constructor
  · intro h
    have hx := isFinite_of_beq h isFinite_one
    exact ⟨hx, ((beq_iff hx isFinite_one).1 h).trans value_one⟩
  · rintro ⟨hx, hvalue⟩
    exact (beq_iff hx isFinite_one).2 (hvalue.trans value_one.symm)

/-- A finite double is negative if and only if its value is. -/
theorem lt_zero_iff (hx : x.isFinite = true) : x < 0 ↔ value x < 0 := by
  rw [lt_iff hx isFinite_zero, value_zero]

/-- A finite double that is not a zero is negative if its sign bit is set. -/
theorem lt_zero_iff_signBit (hx : x.isFinite = true) (hne : value x ≠ 0) :
    x < 0 ↔ signBit x = true := by
  have hnonneg := (magnitude x).value_nonneg
  rw [lt_zero_iff hx]
  rw [value] at hne ⊢
  split at hne
  · rename_i hsign
    rw [if_pos hsign, neg_one_mul] at *
    refine iff_of_true ?_ hsign
    exact lt_of_le_of_ne (neg_nonpos.2 hnonneg) hne
  · rename_i hsign
    rw [if_neg hsign, one_mul]
    exact iff_of_false hnonneg.not_gt hsign

end Double

open Double

/-- A power of a negative number with a fractional exponent. -/
structure FractionalPower (b e : Float) : Prop where
  base_finite : b.isFinite = true
  base_neg : b < 0
  exponent_finite : e.isFinite = true
  not_whole : ¬ IsWhole e

/-- A negative power of a zero. -/
structure Pole (b e : Float) : Prop where
  base_zero : (b == 0) = true
  exponent_neg : e < 0

variable {b e : Float}

/-! ## Faults -/

theorem FractionalPower.base_ne_zero (h : FractionalPower b e) : ¬ (b == 0) = true := by
  have hneg := (lt_zero_iff h.base_finite).1 h.base_neg
  exact fun hzero => hneg.ne (beq_zero_iff.1 hzero).2

theorem FractionalPower.exponent_ne_zero (h : FractionalPower b e) : ¬ (e == 0) = true :=
  fun hzero => h.not_whole ⟨h.exponent_finite, 0, by rw [(beq_zero_iff.1 hzero).2, Int.cast_zero]⟩

theorem FractionalPower.base_ne_one (h : FractionalPower b e) : ¬ (b == 1) = true := by
  intro hone
  have hneg := (lt_zero_iff h.base_finite).1 h.base_neg
  rw [(beq_one_iff.1 hone).2] at hneg
  exact absurd hneg (by norm_num)

theorem Pole.exponent_ne_zero (h : Pole b e) : ¬ (e == 0) = true := by
  intro hzero
  obtain ⟨hfinite, hvalue⟩ := beq_zero_iff.1 hzero
  exact ((lt_zero_iff hfinite).1 h.exponent_neg).ne hvalue

theorem Pole.base_ne_one (h : Pole b e) : ¬ (b == 1) = true := by
  intro hone
  have hvalue := (beq_zero_iff.1 h.base_zero).2
  rw [(beq_one_iff.1 hone).2] at hvalue
  exact one_ne_zero hvalue

theorem Pole.base_finite (h : Pole b e) : b.isFinite = true := (beq_zero_iff.1 h.base_zero).1

/-- The numbers of which no special power is taken. -/
structure OrdinaryPower (b e : Float) : Prop where
  base_finite : b.isFinite = true
  base_ne_zero : ¬ (b == 0) = true
  base_ne_one : ¬ (b == 1) = true
  exponent_finite : e.isFinite = true
  exponent_ne_zero : ¬ (e == 0) = true
  not_fractional : ¬ FractionalPower b e

/-- The power of a finite base other than one with a finite exponent other than zero. -/
theorem pow_of_finite (hb : b.isFinite = true) (he : e.isFinite = true) (hone : ¬ (b == 1) = true)
    (hzero : ¬ (e == 0) = true) :
    Checked.pow b e =
      if b == 0 then
        if e < 0 then .error .domain else .ok (withSign (signBit b ∧ isOddInteger e) 0)
      else if b < 0 ∧ (toInt? e).isNone then .error .domain
      else Checked.ofRounded (withSign (b < 0 ∧ isOddInteger e) (Checked.powMagnitude b e)) := by
  obtain ⟨hbnan, hbinf⟩ := isFinite_iff_not.1 hb
  obtain ⟨henan, heinf⟩ := isFinite_iff_not.1 he
  rw [Checked.pow, if_neg (not_or.2 ⟨hzero, hone⟩), if_neg (Bool.eq_false_iff.1 hbnan),
    if_neg (Bool.eq_false_iff.1 henan), if_neg (Bool.eq_false_iff.1 hbinf),
    if_neg (Bool.eq_false_iff.1 heinf)]

theorem isNone_toInt?_iff : (toInt? e).isNone = true ↔ ¬ IsWhole e := by
  rw [← isSome_toInt?_iff, Option.not_isSome_iff_eq_none, Option.isNone_iff_eq_none]

/-- A negative base with a fractional exponent has no power. -/
theorem pow_of_fractionalPower (h : FractionalPower b e) : Checked.pow b e = .error .domain := by
  rw [pow_of_finite h.base_finite h.exponent_finite h.base_ne_one h.exponent_ne_zero,
    if_neg h.base_ne_zero, if_pos ⟨h.base_neg, isNone_toInt?_iff.2 h.not_whole⟩]

/-- Neither has zero with a finite negative exponent. -/
theorem pow_of_pole (h : Pole b e) (he : e.isFinite = true) : Checked.pow b e = .error .domain := by
  rw [pow_of_finite h.base_finite he h.base_ne_one h.exponent_ne_zero, if_pos h.base_zero,
    if_pos h.exponent_neg]

/-- Any other power is the rounded one, with the sign of an odd power of the base. -/
theorem pow_of_ordinaryPower (h : OrdinaryPower b e) :
    Checked.pow b e = Checked.ofRounded
      (withSign (b < 0 ∧ isOddInteger e) (Checked.powMagnitude b e)) := by
  have hwhole : ¬ (b < 0 ∧ (toInt? e).isNone = true) := fun hnone =>
    h.not_fractional ⟨h.base_finite, hnone.1, h.exponent_finite, isNone_toInt?_iff.1 hnone.2⟩
  rw [pow_of_finite h.base_finite h.exponent_finite h.base_ne_one h.exponent_ne_zero,
    if_neg h.base_ne_zero, if_neg hwhole]

/-- All other powers are special values. -/
theorem exists_pow_of_special (hfractional : ¬ FractionalPower b e)
    (hpole : ¬ (Pole b e ∧ e.isFinite = true)) (hordinary : ¬ OrdinaryPower b e) :
    ∃ y, Checked.pow b e = .ok y := by
  by_cases hunit : (e == 0) = true ∨ (b == 1) = true
  · exact ⟨1, by rw [Checked.pow, if_pos hunit]⟩
  obtain ⟨hzero, hone⟩ := not_or.1 hunit
  rw [Checked.pow, if_neg hunit]
  split
  · exact ⟨_, rfl⟩
  split
  · exact ⟨_, rfl⟩
  split
  · exact ⟨_, rfl⟩
  split
  · exact ⟨_, rfl⟩
  rename_i hbnan henan hbinf heinf
  have hb := isFinite_iff_not.2 ⟨Bool.eq_false_iff.2 hbnan, Bool.eq_false_iff.2 hbinf⟩
  have he := isFinite_iff_not.2 ⟨Bool.eq_false_iff.2 henan, Bool.eq_false_iff.2 heinf⟩
  split
  · rename_i hbzero
    exact ⟨_, if_neg fun hneg => hpole ⟨⟨hbzero, hneg⟩, he⟩⟩
  · rename_i hbzero
    exact absurd ⟨hb, hbzero, hone, he, hzero, hfractional⟩ hordinary

/-- The fault of the domain occurs in these two cases only. -/
theorem pow_eq_domain_iff : Checked.pow b e = .error .domain ↔
    FractionalPower b e ∨ Pole b e ∧ e.isFinite = true := by
  constructor
  · intro h
    by_contra hnone
    obtain ⟨hfractional, hpole⟩ := not_or.1 hnone
    by_cases hordinary : OrdinaryPower b e
    · rw [pow_of_ordinaryPower hordinary, Checked.ofRounded] at h
      split at h <;> cases h
    · obtain ⟨y, hy⟩ := exists_pow_of_special hfractional hpole hordinary
      rw [hy] at h
      cases h
  · rintro (h | ⟨h, he⟩)
    · exact pow_of_fractionalPower h
    · exact pow_of_pole h he

/-- An overflow occurs if the rounded magnitude is infinite. -/
theorem pow_eq_overflow_iff : Checked.pow b e = .error .overflow ↔
    OrdinaryPower b e ∧ (Checked.powMagnitude b e).isInf = true := by
  constructor
  · intro h
    have hordinary : OrdinaryPower b e := by
      by_contra hordinary
      by_cases hdomain : FractionalPower b e ∨ Pole b e ∧ e.isFinite = true
      · rw [pow_eq_domain_iff.2 hdomain] at h
        cases h
      · obtain ⟨hfractional, hpole⟩ := not_or.1 hdomain
        obtain ⟨y, hy⟩ := exists_pow_of_special hfractional hpole hordinary
        rw [hy] at h
        cases h
    refine ⟨hordinary, ?_⟩
    rw [pow_of_ordinaryPower hordinary, Checked.ofRounded, isInf_withSign] at h
    split at h
    · assumption
    · cases h
  · rintro ⟨hordinary, hinf⟩
    rw [pow_of_ordinaryPower hordinary, Checked.ofRounded, isInf_withSign, if_pos hinf]

/-! ## The total power -/

/-- The power is an infinity with the sign that an odd power takes over from the base. -/
def IsSignedInfinity (b e x : Float) : Prop :=
  x.isInf = true ∧ (signBit x = true ↔ signBit b = true ∧ IsOdd e)

theorem isSignedInfinity_withSign {negative : Bool}
    (h : negative = true ↔ signBit b = true ∧ IsOdd e) :
    IsSignedInfinity b e (withSign negative infinity) := by
  refine ⟨(isInf_withSign _ _).trans isInf_infinity, ?_⟩
  rw [signBit_withSign _ isNaN_infinity, h]

/-- In total arithmetic an overflow is the infinity with the sign of the power. -/
theorem power_of_overflow (h : Checked.pow b e = .error .overflow) :
    IsSignedInfinity b e (Total.power b e) := by
  obtain ⟨hordinary, -⟩ := pow_eq_overflow_iff.1 h
  have hne : value b ≠ 0 := fun hzero =>
    hordinary.base_ne_zero (beq_zero_iff.2 ⟨hordinary.base_finite, hzero⟩)
  rw [Total.power, h]
  refine isSignedInfinity_withSign ?_
  rw [decide_eq_true_iff, lt_zero_iff_signBit hordinary.base_finite hne, isOddInteger_iff]

/-- A zero to the power of negative infinity is no fault. -/
theorem pow_of_pole_of_infinite (h : Pole b e) (he : ¬ e.isFinite = true) :
    Checked.pow b e = .ok infinity := by
  have hnan : e.isNaN = false := isNaN_of_lt h.exponent_neg
  have hinf : e.isInf = true := by
    by_contra hinf
    exact he (isFinite_iff_not.2 ⟨hnan, Bool.eq_false_iff.2 hinf⟩)
  obtain ⟨hbnan, hbinf⟩ := isFinite_iff_not.1 h.base_finite
  have habs : value b.abs = 0 := by
    rw [value_abs hbnan, ← abs_value, (beq_zero_iff.1 h.base_zero).2, abs_zero]
  have hone : ¬ (b.abs == 1) = true := by
    rw [beq_one_iff, habs]
    exact fun h => zero_ne_one h.2
  have hgt : ¬ b.abs > 1 := by
    rw [gt_iff_lt, lt_iff isFinite_one (isFinite_abs h.base_finite), habs, value_one]
    norm_num
  have hpos : ¬ e > 0 := not_gt_of_isInf hinf isFinite_zero h.exponent_neg
  rw [Checked.pow, if_neg (not_or.2 ⟨h.exponent_ne_zero, h.base_ne_one⟩),
    if_neg (Bool.eq_false_iff.1 hbnan), if_neg (Bool.eq_false_iff.1 hnan),
    if_neg (Bool.eq_false_iff.1 hbinf), if_pos hinf, Checked.powInfiniteExponent, if_neg hone,
    if_pos (by rw [decide_eq_false hgt, decide_eq_false hpos])]

/-- A pole is the infinity with the sign of the base if the exponent is odd. -/
theorem power_of_pole (h : Pole b e) : IsSignedInfinity b e (Total.power b e) := by
  by_cases he : e.isFinite = true
  · rw [Total.power, pow_of_pole h he]
    dsimp only
    rw [if_pos h.base_zero]
    refine isSignedInfinity_withSign ?_
    rw [decide_eq_true_iff, isOddInteger_iff]
  · rw [Total.power, pow_of_pole_of_infinite h he]
    exact ⟨isInf_infinity, iff_of_false signBit_infinity fun hodd => he hodd.2.1⟩

theorem power_of_fractionalPower (h : FractionalPower b e) :
    (Total.power b e).isNaN = true := by
  rw [Total.power, pow_of_fractionalPower h]
  dsimp only
  rw [if_neg h.base_ne_zero]
  decide +kernel

/-- The total power of any two doubles is no number for a fractional power of a negative number, an
infinity with the sign of an odd power for a pole and for an overflow, and what the checked one gives
otherwise. The checked power is outside the domain in the first case and for a pole with a finite
exponent, and overflows for finite numbers only. -/
theorem power_total (b e : Float) :
    (FractionalPower b e → (Total.power b e).isNaN = true) ∧
      (Pole b e ∨ Checked.pow b e = .error .overflow → IsSignedInfinity b e (Total.power b e)) ∧
      (¬ FractionalPower b e → ¬ Pole b e → Checked.pow b e ≠ .error .overflow →
        Checked.pow b e = .ok (Total.power b e)) ∧
      (Checked.pow b e = .error .domain ↔ FractionalPower b e ∨ Pole b e ∧ e.isFinite = true) ∧
      (Checked.pow b e = .error .overflow ↔
        OrdinaryPower b e ∧ (Checked.powMagnitude b e).isInf = true) := by
  refine ⟨power_of_fractionalPower, ?_, ?_, pow_eq_domain_iff, pow_eq_overflow_iff⟩
  · rintro (h | h)
    · exact power_of_pole h
    · exact power_of_overflow h
  · intro hfractional hpole hoverflow
    cases h : Checked.pow b e with
    | ok y => rw [Total.power, h]
    | error fault =>
      cases fault with
      | overflow => exact absurd h hoverflow
      | domain => exact absurd (pow_eq_domain_iff.1 h) (by tauto)

/-- The theorem at a root, a pole, an overflow and a power of a negative number. -/
theorem power_total_negative :
    (FractionalPower (-10) 0.5 ∧ (Total.power (-10) 0.5).isNaN = true) ∧
      (Pole (-0.0) (-3) ∧ IsSignedInfinity (-0.0) (-3) (Total.power (-0.0) (-3))) ∧
      (Checked.pow (-10) 401 = .error .overflow ∧
        IsSignedInfinity (-10) 401 (Total.power (-10) 401)) ∧
      Checked.pow (-10) 3 = .ok (Total.power (-10) 3) := by
  have hroot : FractionalPower (-10) 0.5 := by
    refine ⟨by decide +kernel, by decide +kernel, by decide +kernel, ?_⟩
    rw [← isSome_toInt?_iff]
    decide +kernel
  have hpole : Pole (-0.0) (-3) := ⟨by decide +kernel, by decide +kernel⟩
  have hoverflow : Checked.pow (-10) 401 = .error .overflow := by decide +kernel
  have hcube : ¬ FractionalPower (-10) 3 ∧ ¬ Pole (-10) 3 := by
    have hwhole : IsWhole 3 := isSome_toInt?_iff.1 (by decide +kernel)
    have hpos : ¬ (3 : Float) < 0 := by decide +kernel
    exact ⟨fun h => h.not_whole hwhole, fun h => hpos h.exponent_neg⟩
  obtain ⟨-, -, hother, -⟩ := power_total (-10) 3
  refine ⟨⟨hroot, (power_total _ _).1 hroot⟩, ⟨hpole, (power_total _ _).2.1 (.inl hpole)⟩,
    ⟨hoverflow, (power_total _ _).2.1 (.inr hoverflow)⟩, hother hcube.1 hcube.2 ?_⟩
  decide +kernel

end Plotter
