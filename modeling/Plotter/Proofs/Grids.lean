import Plotter.Sampling.Grid
import Plotter.Proofs.Arithmetic

/-!
# The points of a grid

A point is the left bound plus a multiple of the step, and each of the four operations that lead to
it is rounded. The points are finite, none is left of the left bound, and they stand in order as far
as they are computed in this way; the last one is the right bound instead. The point next to it may
be beyond that bound. This happens only if the range holds so few of the least units that half a
unit, by which the step may have been rounded up, counts when it is taken once for every step.
-/

namespace Plotter

open Double

namespace Grid

/-- The point at an index, if it were computed as all but the last are. -/
def point (g : Grid) (i : Nat) : Float := g.xMin + Float.ofNat i * g.step

/-- The points stand in order between the bounds. -/
structure InOrder (g : Grid) : Prop where
  sorted : g.points.Pairwise (· ≤ ·)
  within : ∀ x ∈ g.points, g.xMin ≤ x ∧ x ≤ g.xMax

/-- The exact width. -/
def width (g : Grid) : ℚ := value g.xMax - value g.xMin

/-- The number of steps. -/
def steps (g : Grid) : Nat := g.samples - 1

/-- The value of the step. -/
def stepValue (g : Grid) : ℚ := rounded (rounded g.width / g.steps)

/-- The value of a multiple of the step. -/
def offset (g : Grid) (i : Nat) : ℚ := rounded (i * g.stepValue)

variable {g : Grid} {i j : Nat}

/-! ## Exact values of the operations -/

theorem steps_pos (g : Grid) : 0 < g.steps := by
  have htwo := g.two_le_samples
  rw [steps]
  omega

theorem steps_lt (g : Grid) : g.steps < 20000 := by
  have htwo := g.two_le_samples
  have hmax : g.samples ≤ 20000 := g.samples_le
  rw [steps]
  omega

theorem samples_sub_two_lt (g : Grid) : g.samples - 2 < g.steps := by
  have htwo := g.two_le_samples
  rw [steps]
  omega

/-- The right bound is above the left one by a positive width. -/
theorem width_pos (g : Grid) : 0 < g.width :=
  sub_pos.2 ((lt_iff g.xMin_finite g.xMax_finite).1 g.xMin_lt_xMax)

/-- The width is finite. -/
theorem width_lt (g : Grid) : g.width < overflowBound := by
  have hrounded := isRounded_sub g.xMax_finite g.xMin_finite
  exact (le_abs_self _).trans_lt (hrounded.isFinite_iff.1 g.width_finite)

theorem stepValue_nonneg (g : Grid) : 0 ≤ g.stepValue :=
  rounded_nonneg (div_nonneg (rounded_nonneg g.width_pos.le) (Nat.cast_nonneg _))

theorem offset_zero (g : Grid) : g.offset 0 = 0 := by
  rw [offset, Nat.cast_zero, zero_mul, rounded_zero]

/-- Later multiples of the step are not smaller. -/
theorem offset_mono (g : Grid) : Monotone g.offset := fun _ _ h =>
  rounded_mono (mul_le_mul_of_nonneg_right (Nat.cast_le.2 h) g.stepValue_nonneg)

theorem offset_nonneg (g : Grid) (i : Nat) : 0 ≤ g.offset i :=
  g.offset_zero.symm.trans_le (g.offset_mono (Nat.zero_le i))

theorem cast_steps_pos (g : Grid) : (0 : ℚ) < g.steps := Nat.cast_pos.2 g.steps_pos

theorem mul_stepValue_le (hi : i < g.steps) :
    i * g.stepValue ≤ g.steps * g.stepValue - g.stepValue := by
  have hcast : (i : ℚ) + 1 ≤ g.steps := by exact_mod_cast hi
  have hmul := mul_le_mul_of_nonneg_right hcast g.stepValue_nonneg
  linarith

/-! ## Wide ranges -/

/-- In a range of at least `2 ^ 53` least units the roundings add up to less than a step. -/
theorem offset_le_of_wide (h : 2 ^ 53 * leastUnit ≤ g.width) (hi : i < g.steps) :
    i * g.stepValue ≤ g.width ∧ g.offset i ≤ g.width := by
  have hunit := leastUnit_pos
  have hsteps := g.cast_steps_pos
  have hnonneg := g.stepValue_nonneg
  have hmax : (g.steps : ℚ) ≤ 20000 := by exact_mod_cast g.steps_lt.le
  have hwidth : rounded g.width ≤ (1 + 1 / 2 ^ 53) * g.width + leastUnit / 2 :=
    rounded_le g.width_pos.le
  have hquotient : 0 ≤ rounded g.width / g.steps :=
    div_nonneg (rounded_nonneg g.width_pos.le) hsteps.le
  have hstep : g.steps * g.stepValue ≤
      (1 + 1 / 2 ^ 53) * rounded g.width + g.steps * (leastUnit / 2) := by
    calc g.steps * g.stepValue
      _ ≤ g.steps * ((1 + 1 / 2 ^ 53) * (rounded g.width / g.steps) + leastUnit / 2) :=
        mul_le_mul_of_nonneg_left (rounded_le hquotient) hsteps.le
      _ = (1 + 1 / 2 ^ 53) * rounded g.width + g.steps * (leastUnit / 2) := by
        field_simp
  have hunits : g.steps * (leastUnit / 2) ≤ 20000 * (leastUnit / 2) :=
    mul_le_mul_of_nonneg_right hmax (by linarith)
  have hshare : g.steps * g.stepValue ≤ 20000 * g.stepValue :=
    mul_le_mul_of_nonneg_right hmax hnonneg
  have hlast := mul_stepValue_le hi
  have hproduct : 0 ≤ i * g.stepValue := mul_nonneg (Nat.cast_nonneg _) hnonneg
  have hoffset : g.offset i ≤ (1 + 1 / 2 ^ 53) * (i * g.stepValue) + leastUnit / 2 :=
    rounded_le hproduct
  constructor <;> linarith

/-! ## Narrow ranges -/

/-- The width of a narrow range is not rounded. -/
theorem rounded_width_of_narrow (h : g.width < 2 ^ 53 * leastUnit) : rounded g.width = g.width := by
  obtain ⟨a, ha⟩ := exists_units g.xMin
  obtain ⟨b, hb⟩ := exists_units g.xMax
  have hunits : g.width = (b - a : ℤ) * leastUnit := by
    rw [width, ha, hb, Int.cast_sub, sub_mul]
  have hpos := g.width_pos
  rw [hunits] at h hpos
  have hlow : (0 : ℚ) < (b - a : ℤ) := pos_of_mul_pos_left hpos leastUnit_pos.le
  have hhigh : ((b - a : ℤ) : ℚ) < (2 ^ 53 : ℤ) := by
    exact_mod_cast lt_of_mul_lt_mul_right h leastUnit_pos.le
  have hlow : 0 < b - a := by exact_mod_cast hlow
  have hhigh : b - a < 2 ^ 53 := by exact_mod_cast hhigh
  refine rounded_of_representable ⟨b - a, -1074, ?_, le_rfl, hunits⟩
  rwa [abs_of_pos hlow]

/-- The step is rounded up by half a unit at most. -/
theorem stepValue_le_of_narrow (h : g.width < 2 ^ 53 * leastUnit) :
    g.stepValue ≤ g.width / g.steps + leastUnit / 2 := by
  have hone : (1 : ℚ) ≤ g.steps := Nat.one_le_cast.2 g.steps_pos
  have hpos : 0 < g.width / g.steps := div_pos g.width_pos g.cast_steps_pos
  have hlt : |g.width / g.steps| < 2 ^ ((-1074 : ℤ) + 53) := by
    rw [abs_of_pos hpos, zpow_add₀ two_ne_zero, mul_comm]
    exact (div_le_self g.width_pos.le hone).trans_lt h
  have hunit : unitExponent (g.width / g.steps) = -1074 :=
    unitExponent_eq hpos.ne' le_rfl hlt (.inl rfl)
  have herror := (le_abs_self _).trans (abs_rounded_sub_le (g.width / g.steps))
  rw [hunit, ← leastUnit] at herror
  rw [stepValue, rounded_width_of_narrow h]
  linarith

/-- In a range of enough least units the last of the multiples is still within the width. -/
theorem offset_le_of_narrow (h : g.width < 2 ^ 53 * leastUnit)
    (hlarge : g.steps * (g.steps - 1) / 2 * leastUnit ≤ g.width) (hi : i < g.steps) :
    g.offset i ≤ g.width := by
  have hsteps := g.cast_steps_pos
  have hone : (1 : ℚ) ≤ g.steps := Nat.one_le_cast.2 g.steps_pos
  have hlast := mul_stepValue_le hi
  obtain ⟨r, hr⟩ : ∃ r, r = g.width / g.steps := ⟨_, rfl⟩
  have hwidth : g.width = g.steps * r := by
    rw [hr, mul_div_cancel₀ _ hsteps.ne']
  have hshare : (g.steps - 1) / 2 * leastUnit ≤ r := by
    refine le_of_mul_le_mul_left ?_ hsteps
    rw [← hwidth]
    linarith
  have hstep : (g.steps - 1) * g.stepValue ≤ (g.steps - 1) * (r + leastUnit / 2) :=
    mul_le_mul_of_nonneg_left (hr ▸ stepValue_le_of_narrow h) (by linarith)
  have hle : i * g.stepValue ≤ g.width := by
    rw [hwidth]
    linarith
  rw [← rounded_width_of_narrow h]
  exact rounded_mono hle

/-- Over a narrow range multiples of the step stay small. -/
theorem mul_stepValue_le_of_narrow (h : g.width < 2 ^ 53 * leastUnit) (hi : i < g.steps) :
    i * g.stepValue ≤ 2 ^ 54 * leastUnit := by
  have hsteps := g.cast_steps_pos
  have hunit := leastUnit_pos
  have hmax : (g.steps : ℚ) ≤ 20000 := by exact_mod_cast g.steps_lt.le
  have hlast := mul_stepValue_le hi
  have hnonneg := g.stepValue_nonneg
  have hstep : g.steps * g.stepValue ≤ g.width + g.steps * (leastUnit / 2) := by
    calc g.steps * g.stepValue
      _ ≤ g.steps * (g.width / g.steps + leastUnit / 2) :=
        mul_le_mul_of_nonneg_left (stepValue_le_of_narrow h) hsteps.le
      _ = g.width + g.steps * (leastUnit / 2) := by
        rw [mul_add, mul_div_cancel₀ _ hsteps.ne']
  have hunits : g.steps * (leastUnit / 2) ≤ 20000 * (leastUnit / 2) :=
    mul_le_mul_of_nonneg_right hmax (by linarith)
  linarith

/-! ## Points -/

theorem leastUnit_lt_topUnit : 2 ^ 54 * leastUnit < topUnit / 2 := by
  have hlow : 2 ^ 54 * leastUnit = 2 ^ (-1020 : ℤ) := by
    rw [leastUnit, show (-1020 : ℤ) = 54 + -1074 by norm_num, zpow_add₀ two_ne_zero, zpow_ofNat]
  have hhigh : topUnit / 2 = 2 ^ (970 : ℤ) := by
    rw [topUnit, show (971 : ℤ) = 970 + 1 by norm_num, zpow_add_one₀ two_ne_zero,
      mul_div_cancel_right₀ _ two_ne_zero]
  rw [hlow, hhigh]
  exact zpow_lt_zpow_right₀ (by norm_num) (by norm_num)

/-- No multiple of the step is so large that the point would be infinite. -/
theorem offset_bounds (hi : i < g.steps) :
    i * g.stepValue < overflowBound ∧ value g.xMin + g.offset i < overflowBound := by
  rcases le_or_gt (2 ^ 53 * leastUnit) g.width with hwide | hnarrow
  · obtain ⟨hproduct, hoffset⟩ := offset_le_of_wide hwide hi
    have hmax := (le_abs_self _).trans_lt (abs_value_lt_overflowBound g.xMax_finite)
    refine ⟨hproduct.trans_lt g.width_lt, ?_⟩
    rw [width] at hoffset
    linarith
  · have hunit := leastUnit_lt_topUnit
    have htop := topUnit_pos
    have hproduct := mul_stepValue_le_of_narrow hnarrow hi
    have hmin := (le_abs_self _).trans (abs_value_le g.xMin_finite)
    have hrepresentable : Representable (2 ^ 54 * leastUnit) := by
      refine ⟨1, 54 + -1074, by norm_num, by norm_num, ?_⟩
      rw [leastUnit, zpow_add₀ two_ne_zero, zpow_ofNat, Int.cast_one, one_mul]
    have hoffset : g.offset i ≤ 2 ^ 54 * leastUnit := by
      rw [← rounded_of_representable hrepresentable]
      exact rounded_mono hproduct
    rw [cast_overflowBound]
    constructor <;> linarith

/-- The step is the rounded quotient of the rounded width. -/
theorem isRounded_step (g : Grid) : IsRounded g.step (rounded g.width / g.steps) := by
  have hwidth : IsRounded (g.xMax - g.xMin) g.width := isRounded_sub g.xMax_finite g.xMin_finite
  have hsteps : g.steps < 2 ^ 53 := g.steps_lt.trans (by norm_num)
  have hne : value (Float.ofNat g.steps) ≠ 0 := by
    rw [value_ofNat hsteps]
    exact g.cast_steps_pos.ne'
  have hquotient := isRounded_div g.width_finite (isFinite_ofNat hsteps) hne
  rwa [value_ofNat hsteps, hwidth.value_eq (hwidth.isFinite_iff.1 g.width_finite)] at hquotient

theorem abs_rounded_width_div_lt (g : Grid) : |rounded g.width / g.steps| < overflowBound := by
  have hwidth : IsRounded (g.xMax - g.xMin) g.width := isRounded_sub g.xMax_finite g.xMin_finite
  have hone : (1 : ℚ) ≤ g.steps := Nat.one_le_cast.2 g.steps_pos
  have hfinite := abs_value_lt_overflowBound g.width_finite
  rw [hwidth.value_eq (hwidth.isFinite_iff.1 g.width_finite)] at hfinite
  rw [abs_div, Nat.abs_cast]
  exact (div_le_self (abs_nonneg _) hone).trans_lt hfinite

theorem isFinite_step (g : Grid) : g.step.isFinite = true :=
  g.isRounded_step.isFinite_iff.2 g.abs_rounded_width_div_lt

theorem value_step (g : Grid) : value g.step = g.stepValue :=
  g.isRounded_step.value_eq g.abs_rounded_width_div_lt

/-- A point is the rounded sum of the left bound and the multiple of the step. -/
theorem isRounded_point (hi : i < g.steps) :
    IsRounded (g.point i) (value g.xMin + g.offset i) := by
  have hlt : i < 2 ^ 53 := hi.trans (g.steps_lt.trans (by norm_num))
  have hproduct := isRounded_mul (isFinite_ofNat hlt) g.isFinite_step
  rw [value_ofNat hlt, value_step] at hproduct
  have hbound : |i * g.stepValue| < overflowBound := by
    rw [abs_of_nonneg (mul_nonneg (Nat.cast_nonneg _) g.stepValue_nonneg)]
    exact (offset_bounds hi).1
  have hsum := isRounded_add g.xMin_finite (hproduct.isFinite_iff.2 hbound)
  rwa [hproduct.value_eq hbound] at hsum

theorem abs_point_lt (hi : i < g.steps) : |value g.xMin + g.offset i| < overflowBound := by
  have hmin := neg_lt_of_abs_lt (abs_value_lt_overflowBound g.xMin_finite)
  have hoffset := g.offset_nonneg i
  exact abs_lt.2 ⟨by linarith, (offset_bounds hi).2⟩

theorem isFinite_point (hi : i < g.steps) : (g.point i).isFinite = true :=
  (isRounded_point hi).isFinite_iff.2 (abs_point_lt hi)

/-- The value of a point is the rounded sum. -/
theorem value_point (hi : i < g.steps) :
    value (g.point i) = rounded (value g.xMin + g.offset i) :=
  (isRounded_point hi).value_eq (abs_point_lt hi)

/-- The points stand in order as far as they are computed. -/
theorem point_le_point (hij : i ≤ j) (hj : j < g.steps) : g.point i ≤ g.point j := by
  rw [le_iff (isFinite_point (hij.trans_lt hj)) (isFinite_point hj), value_point (hij.trans_lt hj),
    value_point hj]
  exact rounded_mono (by linarith [g.offset_mono hij])

theorem value_point_zero (g : Grid) : value (g.point 0) = value g.xMin := by
  rw [value_point g.steps_pos, offset_zero, add_zero]
  exact rounded_of_representable (representable_value g.xMin)

/-- A point does not exceed the right bound if its offset does not exceed the width. -/
theorem point_le_xMax (hi : i < g.steps) (h : g.offset i ≤ g.width) : g.point i ≤ g.xMax := by
  rw [le_iff (isFinite_point hi) g.xMax_finite, value_point hi,
    ← rounded_of_representable (representable_value g.xMax)]
  refine rounded_mono ?_
  rw [width] at h
  linarith

theorem points_eq (g : Grid) : g.points = (List.range g.steps).map g.point ++ [g.xMax] := rfl

theorem mem_points {x : Float} : x ∈ g.points ↔ (∃ i < g.steps, g.point i = x) ∨ x = g.xMax := by
  simp [points_eq]

/-- All points are finite. -/
theorem isFinite_of_mem_points {x : Float} (hx : x ∈ g.points) : x.isFinite = true := by
  rcases mem_points.1 hx with ⟨i, hi, rfl⟩ | rfl
  · exact isFinite_point hi
  · exact g.xMax_finite

theorem xMin_le_of_mem_points {x : Float} (hx : x ∈ g.points) : g.xMin ≤ x := by
  rw [le_iff g.xMin_finite (isFinite_of_mem_points hx)]
  rcases mem_points.1 hx with ⟨i, hi, rfl⟩ | rfl
  · have hle : g.point 0 ≤ g.point i := point_le_point (Nat.zero_le i) hi
    rwa [le_iff (isFinite_point g.steps_pos) (isFinite_point hi), value_point_zero] at hle
  · exact (sub_pos.1 g.width_pos).le

/-- All points but the last are in order. -/
theorem pairwise_dropLast_points (g : Grid) : g.points.dropLast.Pairwise (· ≤ ·) := by
  rw [points_eq, List.dropLast_concat, List.pairwise_map]
  refine List.pairwise_lt_range.imp_of_mem fun hi hj hlt => ?_
  exact point_le_point hlt.le (List.mem_range.1 hj)

/-- The whole list is in order if the point next to the last is not beyond the right bound. -/
theorem inOrder_iff (g : Grid) : g.InOrder ↔ g.point (g.samples - 2) ≤ g.xMax := by
  have hlast := g.samples_sub_two_lt
  constructor
  · intro h
    exact (h.within _ (mem_points.2 (.inl ⟨_, hlast, rfl⟩))).2
  · intro h
    have hle : ∀ i < g.steps, g.point i ≤ g.xMax := by
      intro i hi
      have hilast : i ≤ g.samples - 2 := by
        rw [steps] at hi
        omega
      have hle : g.point i ≤ g.point (g.samples - 2) := point_le_point hilast hlast
      rw [le_iff (isFinite_point hi) (isFinite_point hlast)] at hle
      rw [le_iff (isFinite_point hlast) g.xMax_finite] at h
      rw [le_iff (isFinite_point hi) g.xMax_finite]
      exact hle.trans h
    constructor
    · have hsorted := g.pairwise_dropLast_points
      rw [points_eq, List.dropLast_concat] at hsorted
      rw [points_eq, List.pairwise_append]
      refine ⟨hsorted, List.pairwise_singleton _ _, ?_⟩
      intro x hx y hy
      obtain ⟨i, hi, rfl⟩ := List.mem_map.1 hx
      obtain rfl := List.mem_singleton.1 hy
      exact hle i (List.mem_range.1 hi)
    · intro x hx
      refine ⟨xMin_le_of_mem_points hx, ?_⟩
      rcases mem_points.1 hx with ⟨i, hi, rfl⟩ | rfl
      · exact hle i hi
      · exact (le_iff g.xMax_finite g.xMax_finite).2 le_rfl

/-- In a range of enough least units the points are in order. -/
theorem inOrder_of_width (h : g.steps * (g.steps - 1) / 2 * leastUnit ≤ g.width) : g.InOrder := by
  have hlast := g.samples_sub_two_lt
  rw [inOrder_iff]
  refine point_le_xMax hlast ?_
  rcases le_or_gt (2 ^ 53 * leastUnit) g.width with hwide | hnarrow
  · exact (offset_le_of_wide hwide hlast).2
  · exact offset_le_of_narrow hnarrow h hlast

/-- The points of a grid are as many as asked for and finite, start at the left bound, end at the
right one, and those before the last stand in order from the left bound on. All of them stand in
order between the bounds if and only if the one next to the last does not exceed the right bound,
and it does not in a range of `n * (n - 1) / 2` least units or more, for `n` steps. -/
theorem points_between_bounds (g : Grid) :
    g.points.length = g.samples ∧
      (∀ x ∈ g.points, x.isFinite = true) ∧
      (∃ x, g.points.head? = some x ∧ (x == g.xMin) = true) ∧
      g.points.getLast? = some g.xMax ∧
      (∀ x ∈ g.points, g.xMin ≤ x) ∧
      g.points.dropLast.Pairwise (· ≤ ·) ∧
      (g.InOrder ↔ g.point (g.samples - 2) ≤ g.xMax) ∧
      (g.steps * (g.steps - 1) / 2 * leastUnit ≤ g.width → g.InOrder) := by
  have hhead : g.points.head? = some (g.point 0) := by
    obtain ⟨n, hn⟩ := Nat.exists_eq_succ_of_ne_zero g.steps_pos.ne'
    rw [points_eq, hn, List.range_succ_eq_map]
    rfl
  refine ⟨?_, fun x => isFinite_of_mem_points, ⟨_, hhead, ?_⟩, ?_, fun x => xMin_le_of_mem_points,
    g.pairwise_dropLast_points, g.inOrder_iff, inOrder_of_width⟩
  · have htwo := g.two_le_samples
    rw [points_eq, List.length_append, List.length_map, List.length_range, List.length_singleton,
      steps]
    omega
  · rw [beq_iff (isFinite_point g.steps_pos) g.xMin_finite, value_point_zero]
  · rw [points_eq, List.getLast?_concat]

/-- Ten steps from zero to two. -/
def fifths : Grid where
  xMin := 0
  xMax := 2
  samples := 11
  xMin_finite := by decide +kernel
  xMax_finite := by decide +kernel
  xMin_lt_xMax := by decide +kernel
  width_finite := by decide +kernel
  two_le_samples := by decide
  samples_le := by decide

/-- The theorem for a range of more than 45 least units in ten steps. -/
theorem points_between_bounds_fifths :
    fifths.points.length = 11 ∧ fifths.point 9 ≤ 2 ∧ fifths.InOrder := by
  have htwo : value 2 = 2 := (value_ofNat (by norm_num)).trans Nat.cast_ofNat
  have hwidth : fifths.width = 2 := by
    show value 2 - value 0 = 2
    rw [htwo, value_zero, sub_zero]
  have hunit : leastUnit ≤ 2 ^ (-6 : ℤ) := zpow_two_le (by norm_num)
  have hlarge : (fifths.steps : ℚ) * (fifths.steps - 1) / 2 * leastUnit ≤ fifths.width := by
    have hsteps : (fifths.steps : ℚ) = 10 := rfl
    rw [hwidth, hsteps]
    norm_num at hunit ⊢
    linarith
  obtain ⟨hlength, -, -, -, -, -, hiff, hwide⟩ := points_between_bounds fifths
  exact ⟨hlength, hiff.1 (hwide hlarge), hwide hlarge⟩

/-- Ten points from zero to the fifth least double. -/
def narrow : Grid where
  xMin := 0
  xMax := Float.ofBits 5
  samples := 10
  xMin_finite := by decide +kernel
  xMax_finite := by decide +kernel
  xMin_lt_xMax := by decide +kernel
  width_finite := by decide +kernel
  two_le_samples := by decide
  samples_le := by decide

/-- The step, five ninths of the least double, is rounded up to that, so the points go on to the
eighth one and back to the right bound. -/
theorem narrow_not_inOrder :
    narrow.points = [0, 1, 2, 3, 4, 5, 6, 7, 8, 5].map Float.ofBits ∧ ¬ narrow.InOrder := by
  refine ⟨by decide +kernel, ?_⟩
  rw [inOrder_iff]
  decide +kernel

end Grid

end Plotter
