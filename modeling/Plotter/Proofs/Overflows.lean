import Plotter.Elementary.Total
import Plotter.Proofs.CorrectRounding
import Plotter.Proofs.Powers

/-!
# Overflows

A function whose value is too large for a double is positive infinity in total arithmetic, whatever
the sign of the value. Of the functions that are made total the exponential and the hyperbolic
cosine overflow, which have positive values only, and the hyperbolic sine: it overflows on both
sides, and on the negative one the sign is lost. Apart from that the odd functions stay odd.
-/

namespace Plotter

open Double

/-- The functions that are made total. -/
inductive MathFn where
  | exp | sinh | cosh | acos | asin | sqrt | log | sin
deriving DecidableEq

namespace MathFn

/-- The function with its faults. -/
def checked : MathFn → Float → Checked
  | exp => Checked.exp
  | sinh => Checked.sinh
  | cosh => Checked.cosh
  | acos => Checked.acos
  | asin => Checked.asin
  | sqrt => Checked.sqrt
  | log => Checked.log
  | sin => Checked.sin

/-- The function of total arithmetic. -/
def total (f : MathFn) : Float → Float := Total.ofChecked f.checked

/-- The function on the real numbers. -/
noncomputable def real : MathFn → ℝ → ℝ
  | exp => Real.exp
  | sinh => Real.sinh
  | cosh => Real.cosh
  | acos => Real.arccos
  | asin => Real.arcsin
  | sqrt => Real.sqrt
  | log => Real.log
  | sin => Real.sin

end MathFn

/-- The double is the infinity with the sign of the number. -/
def IsInfinityOf (x : Float) (r : ℝ) : Prop :=
  x.isInf = true ∧ r ≠ 0 ∧ (signBit x = true ↔ r < 0)

variable {f : MathFn} {x v : Float} {a : Fixed} {e : Int}

/-! ## Rounded fixed-point values -/

/-- A fixed-point value is correctly rounded after its 64 lowest bits have been rounded away. -/
theorem Fixed.isRounded_toFloat (a : Fixed) (e : Int) :
    IsRounded (a.toFloat e) (roundEven (a / 2 ^ 64) * 2 ^ (e + 64 - precision)) := by
  have hround := (isRounded_nearestScaled (roundDiv a.natAbs (Nat.pow 2 64))
    (e + 64 - precision)).withSign (by positivity) (a < 0)
  have hcast : ((roundDiv a.natAbs (Nat.pow 2 64) : Nat) : Int) =
      roundEven ((a.natAbs : ℚ) / 2 ^ 64) := by
    rw [cast_roundDiv (by norm_num)]
    norm_cast
  have hsign := sign_mul_natAbs (fun q => roundEven (q / 2 ^ 64))
    (fun q => by rw [neg_div, roundEven_neg, Int.cast_neg]) a
  rw [← hcast, Int.cast_natCast] at hsign
  rw [← hsign, mul_assoc, Fixed.toFloat]
  simpa only [decide_eq_true_eq] using hround

/-- A change of sign of a fixed-point value is one of the double. -/
theorem toFloat_neg (ha : a ≠ 0) (e : Int) : (-a).toFloat e = -a.toFloat e := by
  have hsign : decide (-a < 0) = !decide (a < 0) := by
    rw [← decide_not, decide_eq_decide, not_lt]
    exact neg_lt_zero.trans (ha.symm.le_iff_lt).symm
  rw [Fixed.toFloat, Fixed.toFloat, Int.natAbs_neg, hsign]
  exact withSign_not _ (isNaN_nearest _ _)

theorem toFloat_zero (e : Int) : Fixed.toFloat 0 e = Float.ofBits 0 := by
  have hzero : roundDiv (Int.natAbs 0) (Nat.pow 2 64) = 0 := by decide
  have habs : (Float.ofBits 0).abs = Float.ofBits 0 := by decide +kernel
  rw [Fixed.toFloat, hzero, nearestScaled, Nat.zero_mul, nearest, nearestBits, if_pos rfl]
  exact habs

/-- The double with the opposite sign equals the negated one, also if both are zeros. -/
theorem toFloat_neg_beq (a : Fixed) (e : Int) : ((-a).toFloat e == -a.toFloat e) = true := by
  rcases eq_or_ne a 0 with rfl | ha
  · show (Fixed.toFloat 0 e == -Fixed.toFloat 0 e) = true
    rw [toFloat_zero]
    decide +kernel
  · rw [toFloat_neg ha]
    exact beq_self_eq_true_of_isNaN ((isNaN_neg _).trans (Fixed.isRounded_toFloat a e).not_nan)

theorem isInf_toFloat_neg (a : Fixed) (e : Int) : ((-a).toFloat e).isInf = (a.toFloat e).isInf := by
  rcases eq_or_ne a 0 with rfl | ha
  · rfl
  · rw [toFloat_neg ha, isInf_neg]

/-- A double with the opposite sign is the opposite fixed-point value. -/
theorem toFixed_neg (hv : v.isNaN = false) : Checked.toFixed (-v) = -Checked.toFixed v := by
  rw [Checked.toFixed, Checked.toFixed, magnitude_neg hv, signBit_neg hv]
  cases signBit v with
  | false => rfl
  | true => exact (Int.neg_neg _).symm

/-- Whether an argument is so small that it is its own value does not depend on its sign. -/
theorem isTiny_neg (hv : v.isNaN = false) : Checked.isTiny (-v) = Checked.isTiny v := by
  rw [Checked.isTiny, Checked.isTiny, abs_neg_eq hv]

/-! ## Odd functions -/

/-- The second result is the first one negated, or the same fault. -/
inductive Opposite : Checked → Checked → Prop
  | ok {x y : Float} (h : (y == -x) = true) : Opposite (.ok x) (.ok y)
  | error (fault : MathFault) : Opposite (.error fault) (.error fault)

theorem opposite_neg (hv : v.isNaN = false) : Opposite (.ok v) (.ok (-v)) :=
  .ok (beq_self_eq_true_of_isNaN ((isNaN_neg v).trans hv))

/-- Results that were opposite before the check for overflow are so after it. -/
theorem opposite_ofRounded {x y : Float} (h : (y == -x) = true) (hinf : y.isInf = x.isInf) :
    Opposite (Checked.ofRounded x) (Checked.ofRounded y) := by
  rw [Checked.ofRounded, Checked.ofRounded, hinf]
  split
  · exact .error _
  · exact .ok h

/-- The computed hyperbolic sine is odd, its faults included. -/
theorem sinh_neg (hv : v.isFinite = true) : Opposite (Checked.sinh v) (Checked.sinh (-v)) := by
  obtain ⟨hnan, hinf⟩ := isFinite_iff_not.1 hv
  obtain ⟨t, ht⟩ : ∃ t, t = Checked.toFixed v := ⟨_, rfl⟩
  have hlimit : (-t > Fixed.expLimit ∨ -t < -Fixed.expLimit) ↔
      (t > Fixed.expLimit ∨ t < -Fixed.expLimit) := by
    rw [gt_iff_lt, gt_iff_lt, lt_neg, neg_lt_neg_iff, or_comm]
  simp only [Checked.sinh, isNaN_neg, isInf_neg, isTiny_neg hnan, toFixed_neg hnan, ← ht, hlimit]
  split
  · exact opposite_neg hnan
  · split
    · exact .error _
    · have hdiff : ((-t).exp.toFixed - (- -t).exp.toFixed : Fixed) =
          -(t.exp.toFixed - (-t).exp.toFixed : Fixed) := by
        rw [neg_neg, neg_sub]
      rw [hdiff]
      exact opposite_ofRounded (toFloat_neg_beq _ _) (isInf_toFloat_neg _ _)

/-- A function computed from the reduced angle and given the sign of the argument is odd. -/
theorem oddOfAngle_neg (g : ReducedAngle → Fixed) (hv : v.isFinite = true) :
    Opposite (Checked.oddOfAngle g v) (Checked.oddOfAngle g (-v)) := by
  obtain ⟨hnan, hinf⟩ := isFinite_iff_not.1 hv
  simp only [Checked.oddOfAngle, isNaN_neg, isInf_neg, isTiny_neg hnan, magnitude_neg hnan,
    signBit_neg hnan]
  split
  · exact .error _
  · split
    · exact opposite_neg hnan
    · have hsign (a : Fixed) : (if (!signBit v) = true then -a else a) =
          -(if signBit v = true then -a else a) := by
        cases signBit v with
        | false => rfl
        | true => exact (neg_neg a).symm
      rw [hsign]
      exact .ok (toFloat_neg_beq _ _)

theorem signedArcsin_neg (hv : v.isNaN = false) :
    Checked.signedArcsin (-v) = -Checked.signedArcsin v := by
  rw [Checked.signedArcsin, Checked.signedArcsin, magnitude_neg hv, signBit_neg hv]
  cases signBit v with
  | false => rfl
  | true => exact (Int.neg_neg _).symm

/-- The computed arc sine is odd, its faults included. -/
theorem asin_neg (hv : v.isFinite = true) : Opposite (Checked.asin v) (Checked.asin (-v)) := by
  obtain ⟨hnan, hinf⟩ := isFinite_iff_not.1 hv
  simp only [Checked.asin, isNaN_neg, isTiny_neg hnan, abs_neg_eq hnan, signedArcsin_neg hnan]
  split
  · exact opposite_neg hnan
  split
  · exact .error _
  split
  · exact opposite_neg hnan
  · exact .ok (toFloat_neg_beq _ _)

/-- The odd ones among the functions. -/
theorem odd_real_iff : Function.Odd f.real ↔ f = .sinh ∨ f = .asin ∨ f = .sin := by
  constructor
  · intro hodd
    cases f with
    | sinh => exact .inl rfl
    | asin => exact .inr (.inl rfl)
    | sin => exact .inr (.inr rfl)
    | exp =>
      have hzero : Real.exp (-0) = -Real.exp 0 := hodd 0
      norm_num at hzero
    | cosh =>
      have hzero : Real.cosh (-0) = -Real.cosh 0 := hodd 0
      norm_num at hzero
    | acos =>
      have hzero : Real.arccos (-0) = -Real.arccos 0 := hodd 0
      rw [neg_zero, Real.arccos_zero] at hzero
      linarith [Real.pi_pos]
    | sqrt =>
      have hone : √(-1) = -√1 := hodd 1
      rw [Real.sqrt_one, Real.sqrt_eq_zero_of_nonpos (by norm_num)] at hone
      norm_num at hone
    | log =>
      have hexp : Real.log (-Real.exp 1) = -Real.log (Real.exp 1) := hodd (Real.exp 1)
      rw [Real.log_neg_eq_log, Real.log_exp] at hexp
      norm_num at hexp
  · rintro (rfl | rfl | rfl)
    · exact Real.sinh_neg
    · exact Real.arcsin_neg
    · exact Real.sin_neg

/-- Where the real function is odd, the computed one is odd, its faults included. -/
theorem opposite_of_odd (hodd : Function.Odd f.real) (hv : v.isFinite = true) :
    Opposite (f.checked v) (f.checked (-v)) := by
  rcases odd_real_iff.1 hodd with rfl | rfl | rfl
  · exact sinh_neg hv
  · exact asin_neg hv
  · exact oddOfAngle_neg _ hv

/-! ## Overflow -/

/-- The other functions do not overflow. -/
theorem eq_of_overflow (h : f.checked v = .error .overflow) :
    f = .exp ∨ f = .sinh ∨ f = .cosh := by
  cases f with
  | exp => exact .inl rfl
  | sinh => exact .inr (.inl rfl)
  | cosh => exact .inr (.inr rfl)
  | acos | asin | sqrt | log | sin =>
    simp only [MathFn.checked, Checked.acos, Checked.asin, Checked.sqrt, Checked.log, Checked.sin,
      Checked.oddOfAngle] at h
    split_ifs at h
    cases h

theorem total_of_overflow (h : f.checked v = .error .overflow) : f.total v = infinity := by
  rw [MathFn.total, Total.ofChecked, h]

/-- Positive infinity has the sign of the positive numbers only. -/
theorem isInfinityOf_infinity_iff {r : ℝ} : IsInfinityOf infinity r ↔ 0 < r := by
  constructor
  · rintro ⟨-, hne, hr⟩
    exact lt_of_le_of_ne (not_lt.1 fun hneg => signBit_infinity (hr.2 hneg)) hne.symm
  · intro hr
    exact ⟨isInf_infinity, hr.ne', iff_of_false signBit_infinity hr.not_gt⟩

/-- The hyperbolic sine does not overflow at the zeros. -/
theorem value_ne_zero_of_overflow (hv : v.isFinite = true) (h : Checked.sinh v = .error .overflow) :
    value v ≠ 0 := by
  intro hzero
  have hnan : v.isNaN = false := isNaN_of_isFinite hv
  have hbound : (Float.ofBits 0x3E30000000000000).isFinite = true := by decide +kernel
  have hpos : (0 : Float) < Float.ofBits 0x3E30000000000000 := by decide +kernel
  have htiny : Checked.isTiny v = true := by
    rw [lt_iff isFinite_zero hbound, value_zero] at hpos
    rw [Checked.isTiny, decide_eq_true_iff, lt_iff (isFinite_abs hv) hbound, value_abs hnan,
      ← abs_value, hzero, abs_zero]
    exact hpos
  rw [Checked.sinh, if_pos (.inr (.inr htiny))] at h
  cases h

/-- The infinity after an overflow has the sign of the real value, except for the hyperbolic sine of
a negative number. -/
theorem isInfinityOf_total_iff (hv : v.isFinite = true) (h : f.checked v = .error .overflow) :
    IsInfinityOf (f.total v) (f.real (value v)) ↔ ¬ (f = .sinh ∧ v < 0) := by
  rw [total_of_overflow h, isInfinityOf_infinity_iff]
  rcases eq_of_overflow h with rfl | rfl | rfl
  · exact iff_of_true (Real.exp_pos _) nofun
  · have hne := value_ne_zero_of_overflow hv h
    show 0 < Real.sinh (value v) ↔ _
    rw [Real.sinh_pos_iff, Rat.cast_pos, and_iff_right rfl, lt_zero_iff hv, not_lt]
    exact ⟨le_of_lt, fun hle => lt_of_le_of_ne hle hne.symm⟩
  · exact iff_of_true (Real.cosh_pos _) nofun

/-- Negating the argument of an odd function negates the value, or keeps it no number. -/
def Mirrors (f : MathFn) (v : Float) : Prop :=
  (f.total (-v) == -f.total v) = true ∨
    (f.total (-v)).isNaN = true ∧ (f.total v).isNaN = true

/-- An odd function stays odd in total arithmetic where its overflow does not lose the sign. -/
theorem mirrors_iff (hodd : Function.Odd f.real) (hv : v.isFinite = true) :
    Mirrors f v ↔ ¬ (f = .sinh ∧ f.checked v = .error .overflow) := by
  have hopposite := opposite_of_odd hodd hv
  have hsinh : f.checked v = .error .overflow → f = .sinh := by
    intro h
    rcases odd_real_iff.1 hodd with rfl | rfl | rfl
    · rfl
    · rcases eq_of_overflow h with h | h | h <;> cases h
    · rcases eq_of_overflow h with h | h | h <;> cases h
  have hiff : Mirrors f v ↔ f.checked v ≠ .error .overflow := by
    rw [Mirrors, MathFn.total, Total.ofChecked, Total.ofChecked]
    generalize f.checked v = r at hopposite
    generalize f.checked (-v) = r' at hopposite
    cases hopposite with
    | ok h => exact iff_of_true (.inl h) nofun
    | error fault =>
      cases fault with
      | domain =>
        have hnan : nan.isNaN = true := by decide +kernel
        exact iff_of_true (.inr ⟨hnan, hnan⟩) nofun
      | overflow =>
        have hnan : infinity.isNaN ≠ true := Bool.eq_false_iff.1 isNaN_infinity
        have hne : ¬ (infinity == -infinity) = true := by decide +kernel
        exact iff_of_false (fun h => h.elim hne fun h => hnan h.1) fun h => h rfl
  rw [hiff]
  exact not_congr ⟨fun h => ⟨hsinh h, h⟩, fun h => h.2⟩

/-- Of the functions only the exponential and the hyperbolic sine and cosine overflow at a finite
argument. The value is then the infinity with the sign of the real one, except for the hyperbolic
sine of a negative number; and the odd functions stay odd where the hyperbolic sine does not
overflow. -/
theorem total_overflow (f : MathFn) (v : Float) (hv : v.isFinite = true) :
    (f.checked v = .error .overflow →
      (f = .exp ∨ f = .sinh ∨ f = .cosh) ∧
        (IsInfinityOf (f.total v) (f.real (value v)) ↔ ¬ (f = .sinh ∧ v < 0))) ∧
      (Function.Odd f.real →
        (Mirrors f v ↔ ¬ (f = .sinh ∧ f.checked v = .error .overflow))) :=
  ⟨fun h => ⟨eq_of_overflow h, isInfinityOf_total_iff hv h⟩, fun hodd => mirrors_iff hodd hv⟩

/-- The theorem at an overflow on the positive side. -/
theorem total_overflow_sinh :
    (1000 : Float).isFinite = true ∧ Checked.sinh 1000 = .error .overflow ∧
      IsInfinityOf (MathFn.sinh.total 1000) (Real.sinh (value 1000)) ∧ ¬ Mirrors .sinh 1000 := by
  have hfinite : (1000 : Float).isFinite = true := by decide +kernel
  have hoverflow : Checked.sinh 1000 = .error .overflow := by decide +kernel
  have hpos : ¬ (1000 : Float) < 0 := by decide +kernel
  obtain ⟨hsign, hmirrors⟩ := total_overflow .sinh 1000 hfinite
  refine ⟨hfinite, hoverflow, (hsign hoverflow).2.2 fun h => hpos h.2, ?_⟩
  rw [hmirrors (odd_real_iff.2 (.inl rfl)), not_not]
  exact ⟨rfl, hoverflow⟩

/-- On the negative side the hyperbolic sine overflows to positive infinity. -/
theorem total_sinh_neg :
    Checked.sinh (-1000) = .error .overflow ∧ MathFn.sinh.total (-1000) = infinity ∧
      Real.sinh (value (-1000)) < 0 := by
  have hfinite : (-1000 : Float).isFinite = true := by decide +kernel
  have hneg : (-1000 : Float) < 0 := by decide +kernel
  have hoverflow : Checked.sinh (-1000) = .error .overflow := by decide +kernel
  refine ⟨hoverflow, total_of_overflow hoverflow, ?_⟩
  rw [Real.sinh_neg_iff, Rat.cast_lt_zero, ← lt_zero_iff hfinite]
  exact hneg

end Plotter
