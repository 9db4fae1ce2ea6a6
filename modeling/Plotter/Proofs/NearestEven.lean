import Mathlib

/-!
# Rounding of exact values

The exact result of an operation is a fraction. It is rounded to a whole number of units, a half
going to the even neighbour. The unit is a power of two: the magnitude has 53 binary digits in front
of it, but no unit is smaller than that of the subnormal numbers. Rounding keeps the order of the
values and leaves alone what needs no rounding. Here it has no upper bound; a value is rounded to
`2 ^ 1024` or more, for which there is no double, from half a unit above the greatest double on.
-/

namespace Plotter.Double

/-- The nearest integer, a half going to the even neighbour. -/
def roundEven (y : ℚ) : ℤ :=
  if 2 * Int.fract y < 1 ∨ (2 * Int.fract y = 1 ∧ Even ⌊y⌋) then ⌊y⌋ else ⌊y⌋ + 1

/-- The power of two that is the unit in the last place of a value. -/
def unitExponent (q : ℚ) : ℤ := max (Int.log 2 |q| - 52) (-1074)

/-- The value rounded to a whole number of units. -/
def rounded (q : ℚ) : ℚ := roundEven (q / 2 ^ unitExponent q) * 2 ^ unitExponent q

/-- The value has at most 53 binary digits, none of them beyond those of the subnormal numbers. -/
def Representable (q : ℚ) : Prop := ∃ n e : ℤ, |n| < 2 ^ 53 ∧ -1074 ≤ e ∧ q = n * 2 ^ e

/-- The unit of the subnormal numbers. -/
def leastUnit : ℚ := 2 ^ (-1074 : ℤ)

/-- Half a unit above the greatest double, which is `(2 ^ 53 - 1) * 2 ^ 971`. -/
def overflowBound : Nat := (2 ^ 54 - 1) * 2 ^ 970

variable {q r : ℚ} {e k : ℤ}

/-! ## Rounding to an integer -/

theorem roundEven_intCast (n : ℤ) : roundEven n = n := by
  simp [roundEven]

theorem floor_le_roundEven (y : ℚ) : ⌊y⌋ ≤ roundEven y := by
  rw [roundEven]
  split_ifs <;> omega

theorem roundEven_le_floor_add_one (y : ℚ) : roundEven y ≤ ⌊y⌋ + 1 := by
  rw [roundEven]
  split_ifs <;> omega

/-- Rounding to an integer keeps the order. -/
theorem roundEven_mono : Monotone roundEven := by
  intro x y hxy
  rcases (Int.floor_mono hxy).lt_or_eq with hlt | heq
  · have hx := roundEven_le_floor_add_one x
    have hy := floor_le_roundEven y
    omega
  · have hfract : Int.fract x ≤ Int.fract y := by
      rw [Int.fract, Int.fract, heq]
      linarith
    rw [roundEven, roundEven, heq]
    split_ifs with hx hy hy
    · exact le_rfl
    · omega
    · -- What is rounded down has no smaller fraction than what is rounded up.
      rcases hy with hy | ⟨hy, heven⟩
      · exact absurd (.inl (by linarith)) hx
      · rcases hfract.lt_or_eq with hlt | htie
        · exact absurd (.inl (by linarith)) hx
        · exact absurd (.inr ⟨by linarith, heven⟩) hx
    · exact le_rfl

/-- Rounding treats both signs alike. -/
theorem roundEven_neg (y : ℚ) : roundEven (-y) = -roundEven y := by
  rcases eq_or_ne (Int.fract y) 0 with hzero | hne
  · obtain ⟨n, rfl⟩ : ∃ n : ℤ, (n : ℚ) = y := Int.fract_eq_zero_iff.1 hzero
    rw [← Int.cast_neg, roundEven_intCast, roundEven_intCast]
  · have hfract : Int.fract (-y) = 1 - Int.fract y := Int.fract_neg hne
    have hfloor : ⌊-y⌋ = -⌊y⌋ - 1 := by
      have hy := Int.floor_add_fract y
      have hneg := Int.floor_add_fract (-y)
      rw [hfract] at hneg
      have hcast : ((⌊-y⌋ : ℤ) : ℚ) = ((-⌊y⌋ - 1 : ℤ) : ℚ) := by
        push_cast
        linarith
      exact_mod_cast hcast
    have hparity : Even (-⌊y⌋ - 1) ↔ ¬ Even ⌊y⌋ := by
      rw [Int.even_sub_one, even_neg]
    rw [roundEven, roundEven, hfract, hfloor]
    rcases lt_trichotomy (2 * Int.fract y) 1 with hlt | htie | hgt
    · rw [if_neg, if_pos (.inl hlt)]
      · ring
      · rintro (h | ⟨h, -⟩) <;> linarith
    · by_cases heven : Even ⌊y⌋
      · rw [if_neg, if_pos (.inr ⟨htie, heven⟩)]
        · ring
        · rintro (h | ⟨-, h⟩)
          · linarith
          · exact hparity.1 h heven
      · rw [if_pos (.inr ⟨by linarith, hparity.2 heven⟩), if_neg]
        · ring
        · rintro (h | ⟨-, h⟩)
          · linarith
          · exact heven h
    · rw [if_pos (.inl (by linarith)), if_neg]
      · ring
      · rintro (h | ⟨h, -⟩) <;> linarith

/-- Rounding to an integer moves a value by at most a half. -/
theorem abs_roundEven_sub_le (y : ℚ) : |roundEven y - y| ≤ 1 / 2 := by
  have hy := Int.floor_add_fract y
  have hnonneg := Int.fract_nonneg y
  have hlt := Int.fract_lt_one y
  rw [abs_le, roundEven]
  split_ifs with h
  · have hhalf : 2 * Int.fract y ≤ 1 := by
      rcases h with h | ⟨h, -⟩
      · exact h.le
      · exact h.le
    constructor <;> linarith
  · have hhalf : 1 ≤ 2 * Int.fract y := not_lt.1 fun hlt => h (.inl hlt)
    push_cast
    constructor <;> linarith

/-! ## Units -/

theorem zpow_two_pos (e : ℤ) : (0 : ℚ) < 2 ^ e := zpow_pos (by norm_num) e

theorem zpow_two_le (h : e ≤ k) : (2 : ℚ) ^ e ≤ 2 ^ k := zpow_le_zpow_right₀ (by norm_num) h

theorem neg_le_unitExponent (q : ℚ) : -1074 ≤ unitExponent q := le_max_right _ _

theorem unitExponent_neg (q : ℚ) : unitExponent (-q) = unitExponent q := by
  rw [unitExponent, unitExponent, abs_neg]

/-- A value has at most 53 digits before its unit. -/
theorem abs_lt_zpow_unitExponent (q : ℚ) : |q| < 2 ^ (unitExponent q + 53) := by
  have hlt : |q| < ((2 : ℕ) : ℚ) ^ (Int.log 2 |q| + 1) :=
    Int.lt_zpow_succ_log_self (by norm_num) |q|
  have hle : Int.log 2 |q| - 52 ≤ unitExponent q := le_max_left _ _
  exact hlt.trans_le (zpow_two_le (by omega))

/-- Above the subnormal numbers a value holds at least `2 ^ 52` of its units. -/
theorem zpow_unitExponent_le (hq : q ≠ 0) :
    unitExponent q = -1074 ∨ 2 ^ (unitExponent q + 52) ≤ |q| := by
  have hle : ((2 : ℕ) : ℚ) ^ Int.log 2 |q| ≤ |q| :=
    Int.zpow_log_le_self (by norm_num) (abs_pos.2 hq)
  rcases max_choice (Int.log 2 |q| - 52) (-1074) with h | h
  · refine .inr ?_
    rw [unitExponent, h, show Int.log 2 |q| - 52 + 52 = Int.log 2 |q| by omega]
    exact hle
  · exact .inl h

/-- Any unit of which the value holds as many as that is the unit of the value. -/
theorem unitExponent_eq (hq : q ≠ 0) (he : -1074 ≤ e) (hlt : |q| < 2 ^ (e + 53))
    (hle : e = -1074 ∨ 2 ^ (e + 52) ≤ |q|) : unitExponent q = e := by
  have hpos : 0 < |q| := abs_pos.2 hq
  have hlog : Int.log 2 |q| < e + 53 := (Int.lt_zpow_iff_log_lt (by norm_num) hpos).1 hlt
  rcases hle with rfl | hle
  · exact max_eq_right (by omega)
  · have hlog' : e + 52 ≤ Int.log 2 |q| := (Int.zpow_le_iff_le_log (by norm_num) hpos).1 hle
    rw [unitExponent, max_eq_left (by omega)]
    omega

theorem unitExponent_mono (hq : 0 < q) (hqr : q ≤ r) : unitExponent q ≤ unitExponent r := by
  have hlog : Int.log 2 |q| ≤ Int.log 2 |r| :=
    Int.log_mono_right (abs_pos.2 hq.ne') (abs_le_abs_of_nonneg hq.le hqr)
  exact max_le_max_right _ (by omega)

/-! ## Rounding to units -/

theorem rounded_zero : rounded 0 = 0 := by
  have hzero : roundEven 0 = 0 := roundEven_intCast 0
  rw [rounded, zero_div, hzero, Int.cast_zero, zero_mul]

theorem rounded_neg (q : ℚ) : rounded (-q) = -rounded q := by
  rw [rounded, rounded, unitExponent_neg, neg_div, roundEven_neg, Int.cast_neg, neg_mul]

/-- The power of two is a whole number of units. -/
theorem zpow_div_zpow (h : e ≤ k) : (2 : ℚ) ^ k / 2 ^ e = ((2 ^ (k - e).toNat : ℤ) : ℚ) := by
  rw [← zpow_sub₀ two_ne_zero]
  push_cast
  rw [← zpow_natCast, Int.toNat_of_nonneg (by omega)]

/-- Rounding does not cross a power of two upwards. -/
theorem rounded_le_zpow (hk : unitExponent q ≤ k) (h : q ≤ 2 ^ k) : rounded q ≤ 2 ^ k := by
  have hunit := zpow_two_pos (unitExponent q)
  have hdiv : q / 2 ^ unitExponent q ≤ ((2 ^ (k - unitExponent q).toNat : ℤ) : ℚ) := by
    rw [← zpow_div_zpow hk]
    exact div_le_div_of_nonneg_right h hunit.le
  have hround := roundEven_mono hdiv
  rw [roundEven_intCast] at hround
  have hcast : (roundEven (q / 2 ^ unitExponent q) : ℚ) ≤ 2 ^ k / 2 ^ unitExponent q := by
    rw [zpow_div_zpow hk]
    exact_mod_cast hround
  exact (le_div_iff₀ hunit).1 hcast

/-- Rounding does not cross a power of two downwards. -/
theorem zpow_le_rounded (hk : unitExponent q ≤ k) (h : 2 ^ k ≤ q) : 2 ^ k ≤ rounded q := by
  have hunit := zpow_two_pos (unitExponent q)
  have hdiv : ((2 ^ (k - unitExponent q).toNat : ℤ) : ℚ) ≤ q / 2 ^ unitExponent q := by
    rw [← zpow_div_zpow hk]
    exact div_le_div_of_nonneg_right h hunit.le
  have hround := roundEven_mono hdiv
  rw [roundEven_intCast] at hround
  have hcast : (2 : ℚ) ^ k / 2 ^ unitExponent q ≤ roundEven (q / 2 ^ unitExponent q) := by
    rw [zpow_div_zpow hk]
    exact_mod_cast hround
  exact (div_le_iff₀ hunit).1 hcast

theorem rounded_nonneg (h : 0 ≤ q) : 0 ≤ rounded q := by
  have hunit := zpow_two_pos (unitExponent q)
  have hround : 0 ≤ roundEven (q / 2 ^ unitExponent q) := by
    rw [← roundEven_intCast 0]
    exact roundEven_mono (by rw [Int.cast_zero]; positivity)
  exact mul_nonneg (by exact_mod_cast hround) hunit.le

theorem rounded_le_rounded_of_pos (hq : 0 < q) (hqr : q ≤ r) : rounded q ≤ rounded r := by
  rcases (unitExponent_mono hq hqr).lt_or_eq with hlt | heq
  · -- There is a power of two between the values, and both are rounded towards it.
    have hr : r ≠ 0 := (hq.trans_le hqr).ne'
    have hmin := neg_le_unitExponent q
    have hhigh : 2 ^ (unitExponent r + 52) ≤ |r| :=
      (zpow_unitExponent_le hr).resolve_left (by omega)
    have hlow : |q| < 2 ^ (unitExponent q + 53) := abs_lt_zpow_unitExponent q
    rw [abs_of_pos (hq.trans_le hqr)] at hhigh
    rw [abs_of_pos hq] at hlow
    calc rounded q
      _ ≤ 2 ^ (unitExponent r + 52) :=
        rounded_le_zpow (by omega) (hlow.le.trans (zpow_two_le (by omega)))
      _ ≤ rounded r := zpow_le_rounded (by omega) hhigh
  · have hunit := zpow_two_pos (unitExponent r)
    have hround : roundEven (q / 2 ^ unitExponent r) ≤ roundEven (r / 2 ^ unitExponent r) :=
      roundEven_mono (div_le_div_of_nonneg_right hqr hunit.le)
    rw [rounded, rounded, heq]
    exact mul_le_mul_of_nonneg_right (by exact_mod_cast hround) hunit.le

/-- Rounding keeps the order. -/
theorem rounded_mono : Monotone rounded := by
  intro q r hqr
  rcases lt_or_ge 0 q with hq | hq
  · exact rounded_le_rounded_of_pos hq hqr
  rcases lt_or_ge r 0 with hr | hr
  · have hneg : rounded (-r) ≤ rounded (-q) :=
      rounded_le_rounded_of_pos (neg_pos.2 hr) (neg_le_neg hqr)
    rw [rounded_neg, rounded_neg] at hneg
    exact neg_le_neg_iff.1 hneg
  · have hneg : 0 ≤ rounded (-q) := rounded_nonneg (neg_nonneg.2 hq)
    rw [rounded_neg] at hneg
    exact (neg_nonneg.1 hneg).trans (rounded_nonneg hr)

/-- The number of units of a positive value has 53 binary digits or, among the subnormal numbers,
fewer; a carry makes it the least number with one more. -/
theorem roundEven_units_bounds (hq : 0 < q) :
    roundEven (q / 2 ^ unitExponent q) ≤ 2 ^ 53 ∧
      (unitExponent q = -1074 ∨ 2 ^ 52 ≤ roundEven (q / 2 ^ unitExponent q)) := by
  have hunit := zpow_two_pos (unitExponent q)
  have habs : |q| = q := abs_of_pos hq
  constructor
  · have hlt := abs_lt_zpow_unitExponent q
    have hle : q / 2 ^ unitExponent q ≤ ((2 ^ 53 : ℤ) : ℚ) := by
      rw [habs, zpow_add₀ two_ne_zero, mul_comm] at hlt
      rw [div_le_iff₀ hunit]
      exact_mod_cast hlt.le
    have hround := roundEven_mono hle
    rwa [roundEven_intCast] at hround
  · refine (zpow_unitExponent_le hq.ne').imp_right fun hlow => ?_
    have hle : ((2 ^ 52 : ℤ) : ℚ) ≤ q / 2 ^ unitExponent q := by
      rw [habs, zpow_add₀ two_ne_zero, mul_comm] at hlow
      rw [le_div_iff₀ hunit]
      exact_mod_cast hlow
    have hround := roundEven_mono hle
    rwa [roundEven_intCast] at hround

/-- What can be represented is not changed. -/
theorem rounded_of_representable (h : Representable q) : rounded q = q := by
  rcases eq_or_ne q 0 with rfl | hq
  · exact rounded_zero
  obtain ⟨n, e, hn, he, rfl⟩ := h
  have hunit : unitExponent (n * 2 ^ e) ≤ e := by
    rcases zpow_unitExponent_le hq with hmin | hle
    · omega
    · have hcast : |(n : ℚ)| < 2 ^ (53 : ℤ) := by exact_mod_cast hn
      have hlt : |(n : ℚ) * 2 ^ e| < 2 ^ (e + 53) := by
        rw [abs_mul, abs_of_pos (zpow_two_pos e), zpow_add₀ two_ne_zero, mul_comm]
        exact mul_lt_mul_of_pos_left hcast (zpow_two_pos e)
      have hexponents := (zpow_lt_zpow_iff_right₀ (by norm_num : (1 : ℚ) < 2)).1 (hle.trans_lt hlt)
      omega
  have hdiv : (n * 2 ^ e : ℚ) / 2 ^ unitExponent (n * 2 ^ e) =
      ((n * 2 ^ (e - unitExponent (n * 2 ^ e)).toNat : ℤ) : ℚ) := by
    rw [mul_div_assoc, zpow_div_zpow hunit, Int.cast_mul]
  rw [rounded, hdiv, roundEven_intCast, ← hdiv, div_mul_cancel₀ _ (zpow_two_pos _).ne']

/-- The error is at most half a unit. -/
theorem abs_rounded_sub_le (q : ℚ) : |rounded q - q| ≤ 2 ^ unitExponent q / 2 := by
  have hunit := zpow_two_pos (unitExponent q)
  have hround := abs_roundEven_sub_le (q / 2 ^ unitExponent q)
  calc |rounded q - q|
    _ = |roundEven (q / 2 ^ unitExponent q) - q / 2 ^ unitExponent q| * 2 ^ unitExponent q := by
      rw [← abs_of_pos hunit, ← abs_mul, abs_of_pos hunit, sub_mul,
        div_mul_cancel₀ _ hunit.ne', rounded]
    _ ≤ 1 / 2 * 2 ^ unitExponent q := mul_le_mul_of_nonneg_right hround hunit.le
    _ = 2 ^ unitExponent q / 2 := by ring

theorem leastUnit_pos : 0 < leastUnit := zpow_two_pos (-1074)

/-- The error is small in proportion to the value, or at most half the least unit. -/
theorem abs_rounded_sub_le_or (q : ℚ) :
    |rounded q - q| ≤ |q| / 2 ^ 53 ∨ |rounded q - q| ≤ leastUnit / 2 := by
  have herror := abs_rounded_sub_le q
  rcases eq_or_ne q 0 with rfl | hq
  · refine .inl ?_
    rw [rounded_zero, sub_zero, abs_zero, zero_div]
  · refine (zpow_unitExponent_le hq).symm.imp (fun hle => herror.trans ?_) fun hmin => ?_
    · have hscale : (2 : ℚ) ^ unitExponent q / 2 * 2 ^ 53 = 2 ^ (unitExponent q + 52) := by
        rw [zpow_add₀ two_ne_zero, zpow_ofNat]
        ring
      rw [le_div_iff₀ (by norm_num), hscale]
      exact hle
    · rwa [hmin] at herror

/-- A value that is not negative grows by a small factor and half the least unit at most. -/
theorem rounded_le (hq : 0 ≤ q) : rounded q ≤ (1 + 1 / 2 ^ 53) * q + leastUnit / 2 := by
  have hle := le_abs_self (rounded q - q)
  have hunit := leastUnit_pos
  have hgrowth : 0 ≤ q / 2 ^ 53 := by positivity
  rcases abs_rounded_sub_le_or q with h | h
  · rw [abs_of_nonneg hq] at h
    linarith
  · linarith

/-! ## Nearest values -/

/-- No integer is nearer than the rounded number. -/
theorem abs_roundEven_sub_le_abs_sub (y : ℚ) (k : ℤ) : |roundEven y - y| ≤ |k - y| := by
  by_contra! hlt
  have hhalf := abs_roundEven_sub_le y
  have hone : |((k - roundEven y : ℤ) : ℚ)| < 1 := by
    calc |((k - roundEven y : ℤ) : ℚ)|
      _ = |(k - y) - (roundEven y - y)| := by
        push_cast
        rw [sub_sub_sub_cancel_right]
      _ ≤ |k - y| + |roundEven y - y| := abs_sub _ _
      _ < 1 := by linarith
  have hzero : k - roundEven y = 0 := Int.abs_lt_one_iff.1 (by exact_mod_cast hone)
  rw [sub_eq_zero.1 hzero] at hlt
  exact lt_irrefl _ hlt

/-- No whole number of units is nearer than the rounded value. -/
theorem abs_rounded_sub_le_of_units (q : ℚ) (k : ℤ) :
    |rounded q - q| ≤ |k * 2 ^ unitExponent q - q| := by
  have hunit := zpow_two_pos (unitExponent q)
  have hscale (i : ℤ) : |i * 2 ^ unitExponent q - q| =
      |i - q / 2 ^ unitExponent q| * 2 ^ unitExponent q := by
    rw [← abs_of_pos hunit, ← abs_mul, abs_of_pos hunit, sub_mul, div_mul_cancel₀ _ hunit.ne']
  rw [rounded, hscale, hscale]
  exact mul_le_mul_of_nonneg_right (abs_roundEven_sub_le_abs_sub _ k) hunit.le

/-- Of the values that can be represented, none is nearer to a positive value. -/
theorem abs_rounded_sub_le_of_pos (hq : 0 < q) (hr : Representable r) :
    |rounded q - q| ≤ |r - q| := by
  obtain ⟨n, e, hn, he, rfl⟩ := hr
  rcases le_or_gt (unitExponent q) e with hle | hgt
  · have hunits : (n : ℚ) * 2 ^ e =
        ((n * 2 ^ (e - unitExponent q).toNat : ℤ) : ℚ) * 2 ^ unitExponent q := by
      rw [Int.cast_mul, ← zpow_div_zpow hle, mul_assoc, div_mul_cancel₀ _ (zpow_two_pos _).ne']
    rw [hunits]
    exact abs_rounded_sub_le_of_units q _
  · -- A power of two, a whole number of units, lies between the values.
    have hnear := abs_rounded_sub_le_of_units q (2 ^ 52)
    have hpower : ((2 ^ 52 : ℤ) : ℚ) * 2 ^ unitExponent q = 2 ^ (unitExponent q + 52) := by
      rw [zpow_add₀ two_ne_zero, mul_comm]
      norm_cast
    have hlow : 2 ^ (unitExponent q + 52) ≤ q :=
      ((zpow_unitExponent_le hq.ne').resolve_left (by omega)).trans_eq (abs_of_pos hq)
    have hcast : (n : ℚ) ≤ 2 ^ (53 : ℤ) := by exact_mod_cast (le_abs_self n).trans hn.le
    have hhigh : (n : ℚ) * 2 ^ e ≤ 2 ^ (unitExponent q + 52) := by
      calc (n : ℚ) * 2 ^ e
        _ ≤ 2 ^ (53 : ℤ) * 2 ^ e := mul_le_mul_of_nonneg_right hcast (zpow_two_pos e).le
        _ = 2 ^ (53 + e) := (zpow_add₀ two_ne_zero _ _).symm
        _ ≤ 2 ^ (unitExponent q + 52) := zpow_two_le (by omega)
    rw [hpower, abs_of_nonpos (sub_nonpos.2 hlow)] at hnear
    rw [abs_of_nonpos (a := n * 2 ^ e - q) (sub_nonpos.2 (hhigh.trans hlow))]
    linarith

theorem Representable.neg (hr : Representable r) : Representable (-r) := by
  obtain ⟨n, e, hn, he, rfl⟩ := hr
  exact ⟨-n, e, by rwa [abs_neg], he, by rw [Int.cast_neg, neg_mul]⟩

/-- Nothing that can be represented is nearer than the rounded value. -/
theorem abs_rounded_sub_le_of_representable (q : ℚ) (hr : Representable r) :
    |rounded q - q| ≤ |r - q| := by
  rcases lt_trichotomy q 0 with hq | rfl | hq
  · have hneg := abs_rounded_sub_le_of_pos (neg_pos.2 hq) hr.neg
    rwa [rounded_neg, ← neg_sub', ← neg_sub', abs_neg, abs_neg] at hneg
  · rw [rounded_zero, sub_zero, abs_zero]
    exact abs_nonneg _
  · exact abs_rounded_sub_le_of_pos hq hr

/-- What is less than half the least unit is rounded to zero. -/
theorem rounded_eq_zero (hq : 0 ≤ q) (hlt : q < leastUnit / 2) : rounded q = 0 := by
  rcases hq.eq_or_lt with rfl | hpos
  · exact rounded_zero
  have hunit := leastUnit_pos
  have hexponent : unitExponent q = -1074 := by
    refine unitExponent_eq hpos.ne' le_rfl ?_ (.inl rfl)
    rw [abs_of_pos hpos]
    calc q
      _ < leastUnit := by linarith
      _ ≤ 2 ^ (-1074 + 53 : ℤ) := zpow_two_le (by norm_num)
  have hhalf : q / leastUnit < 1 / 2 := by
    rw [div_lt_iff₀ hunit]
    linarith
  have hfloor : ⌊q / leastUnit⌋ = 0 := by
    rw [Int.floor_eq_zero_iff]
    exact ⟨div_nonneg hq hunit.le, by linarith⟩
  have hround : roundEven (q / leastUnit) = 0 := by
    have hfract : 2 * Int.fract (q / leastUnit) < 1 := by
      rw [Int.fract, hfloor, Int.cast_zero, sub_zero]
      linarith
    rw [roundEven, if_pos (.inl hfract), hfloor]
  rw [rounded, hexponent, ← leastUnit, hround, Int.cast_zero, zero_mul]

/-! ## Overflow -/

/-- The unit of the greatest double, and of everything from `2 ^ 1023` up to `2 ^ 1024`. -/
def topUnit : ℚ := 2 ^ (971 : ℤ)

theorem topUnit_pos : 0 < topUnit := zpow_two_pos 971

theorem zpow_eq_mul_topUnit (n : ℕ) (hk : k = n + 971) : (2 : ℚ) ^ k = 2 ^ n * topUnit := by
  rw [hk, zpow_add₀ two_ne_zero, zpow_natCast, topUnit]

/-- The bound lies half a unit below the next power of two, in the units of the last binade. -/
theorem cast_overflowBound : (overflowBound : ℚ) = (2 ^ 53 - 1 / 2) * topUnit := by
  -- The exponent gets a name, since the power is too large to be computed.
  obtain ⟨k, hk⟩ : ∃ k, k = 970 := ⟨_, rfl⟩
  have hunit : topUnit = 2 * 2 ^ k := by
    rw [topUnit, show (971 : ℤ) = ((k + 1 : ℕ) : ℤ) by omega, zpow_natCast, pow_succ']
  rw [overflowBound, hunit, ← hk]
  push_cast
  ring

/-- The unit of the last binade is that of the greatest double. -/
theorem unitExponent_of_last_binade (hlow : 2 ^ 52 * topUnit ≤ q) (hhigh : q < 2 ^ 53 * topUnit) :
    unitExponent q = 971 := by
  have hpos : 0 < q := (mul_pos (by norm_num) topUnit_pos).trans_le hlow
  refine unitExponent_eq hpos.ne' (by norm_num) ?_ (.inr ?_)
  · rw [abs_of_pos hpos, zpow_eq_mul_topUnit 53 (by norm_num)]
    exact hhigh
  · rw [abs_of_pos hpos, zpow_eq_mul_topUnit 52 (by norm_num)]
    exact hlow

theorem rounded_of_last_binade (hlow : 2 ^ 52 * topUnit ≤ q) (hhigh : q < 2 ^ 53 * topUnit) :
    rounded q = roundEven (q / topUnit) * topUnit := by
  rw [rounded, unitExponent_of_last_binade hlow hhigh, topUnit]

/-- What is less than half a unit above the greatest double is rounded to that double at most. -/
theorem rounded_lt_of_lt_overflowBound (hq : q < overflowBound) : rounded q < 2 ^ 53 * topUnit := by
  have hunit := topUnit_pos
  rw [cast_overflowBound] at hq
  rcases le_or_gt q ((2 ^ 53 - 1) * topUnit) with hle | hgt
  · have hgreatest : rounded ((2 ^ 53 - 1) * topUnit) = (2 ^ 53 - 1) * topUnit :=
      rounded_of_representable ⟨2 ^ 53 - 1, 971, by norm_num, by norm_num, by norm_num [topUnit]⟩
    have hmono := rounded_mono hle
    linarith
  · have hfloor : ⌊q / topUnit⌋ = 2 ^ 53 - 1 := by
      rw [Int.floor_eq_iff, le_div_iff₀ hunit, div_lt_iff₀ hunit]
      push_cast
      constructor <;> linarith
    have hfract : 2 * Int.fract (q / topUnit) < 1 := by
      have hlt : q / topUnit < 2 ^ 53 - 1 / 2 := (div_lt_iff₀ hunit).2 hq
      rw [Int.fract, hfloor]
      push_cast
      linarith
    rw [rounded_of_last_binade (by linarith) (by linarith), roundEven, if_pos (.inl hfract), hfloor]
    push_cast
    linarith

/-- Half a unit above the greatest double is a tie, and the even neighbour is the one above. -/
theorem rounded_overflowBound : rounded overflowBound = 2 ^ 53 * topUnit := by
  have hunit := topUnit_pos
  have hfloor : ⌊(2 ^ 53 - 1 / 2 : ℚ)⌋ = 2 ^ 53 - 1 := by
    rw [Int.floor_eq_iff]
    norm_num
  have hodd : ¬ Even (2 ^ 53 - 1 : ℤ) := by decide
  have hround : roundEven (2 ^ 53 - 1 / 2) = 2 ^ 53 := by
    rw [roundEven, if_neg]
    · rw [hfloor]
      norm_num
    · rw [Int.fract, hfloor]
      rintro (h | ⟨-, h⟩)
      · norm_num at h
      · exact hodd h
  rw [cast_overflowBound, rounded_of_last_binade, mul_div_cancel_right₀ _ hunit.ne', hround]
  · norm_num
  · linarith
  · linarith

/-- A value is rounded to `2 ^ 1024` or more if and only if it reaches the bound. -/
theorem zpow_le_rounded_iff : 2 ^ (1024 : ℤ) ≤ rounded q ↔ overflowBound ≤ q := by
  rw [zpow_eq_mul_topUnit 53 (by norm_num)]
  constructor
  · intro hrounded
    by_contra hq
    exact (rounded_lt_of_lt_overflowBound (not_le.1 hq)).not_ge hrounded
  · intro hq
    rw [← rounded_overflowBound]
    exact rounded_mono hq

theorem abs_rounded_lt_iff : |rounded q| < 2 ^ (1024 : ℤ) ↔ |q| < overflowBound := by
  have hneg : 2 ^ (1024 : ℤ) ≤ -rounded q ↔ overflowBound ≤ -q := by
    rw [← rounded_neg]
    exact zpow_le_rounded_iff
  rw [← not_le, ← not_le, le_abs, le_abs, zpow_le_rounded_iff, hneg]

end Plotter.Double
