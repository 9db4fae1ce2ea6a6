import Plotter.Proofs.ExactValues

/-!
# Signs of doubles

A double that is a number is its sign bit together with its magnitude. A change of sign keeps the
magnitude, so it can be undone, and what depends on the magnitude only is the same for both signs.
-/

namespace Plotter.Double

open Float.Model (UnpackedFloat)
open Float.Model.UnpackedFloat

variable {x y : Float} {u : UnpackedFloat}

/-! ## Negation -/

theorem isNaN_neg (x : Float) : (-x).isNaN = x.isNaN :=
  (isNaN_packed _).trans (isNaN_unpackedNeg _)

/-- A change of sign flips the sign bit. -/
theorem signBit_neg (hx : x.isNaN = false) : signBit (-x) = !signBit x := by
  have hnan : (unpacked x).neg.isNaN = false := (isNaN_unpackedNeg _).trans hx
  have hneg : signBit (-x) = true ↔ signOf (unpacked x).neg = .negative :=
    signBit_packed hnan (isCanonical_unpackedNeg x)
  have hflip : signOf (unpacked x).neg = .negative ↔ ¬ signOf (unpacked x) = .negative := by
    generalize unpacked x = u at hnan
    cases u with
    | notANumber => cases hnan
    | infinity s | zero s | finite s =>
      cases s with
      | negative => exact iff_of_false nofun fun h => h rfl
      | positive => exact iff_of_true rfl nofun
  rw [Bool.eq_iff_iff, hneg, hflip, ← signBit_iff hx, Bool.not_eq_true', Bool.not_eq_true]

/-- The magnitude of a double comes back from packing. -/
theorem magnitude_packed_of_magnitudeOf (hx : x.isNaN = false) (hu : u.isNaN = false)
    (h : magnitudeOf u = magnitudeOf (unpacked x)) : magnitude (packed u) = magnitude x := by
  have hbounded : Bounded (unpacked x) := bounded_unpack _
  have hnan : (unpacked x).isNaN = false := hx
  rw [magnitude_packed hu (h ▸ isCanonical_unpacked x), h, magnitude_eq hx]
  generalize unpacked x = v at *
  cases v with
  | notANumber => cases hnan
  | infinity | zero => rfl
  | finite s m e hm =>
    have he : e ≤ 971 := hbounded
    exact if_pos (show e < 972 by omega)

/-- It keeps the magnitude. -/
theorem magnitude_neg (hx : x.isNaN = false) : magnitude (-x) = magnitude x :=
  magnitude_packed_of_magnitudeOf hx ((isNaN_unpackedNeg _).trans hx) (magnitudeOf_neg _)

/-! ## Magnitude without sign -/

theorem isNaN_unpackedAbs (u : UnpackedFloat) : u.abs.isNaN = u.isNaN := by
  cases u <;> rfl

theorem magnitudeOf_abs (u : UnpackedFloat) : magnitudeOf u.abs = magnitudeOf u := by
  cases u <;> rfl

theorem signOf_abs (u : UnpackedFloat) : signOf u.abs = .positive := by
  cases u <;> rfl

theorem isNaN_abs (x : Float) : x.abs.isNaN = x.isNaN :=
  (isNaN_packed _).trans (isNaN_unpackedAbs _)

/-- The double without sign has no sign bit. -/
theorem signBit_abs (hx : x.isNaN = false) : signBit x.abs = false := by
  have hcanonical : (magnitudeOf (unpacked x).abs).IsCanonical := by
    rw [magnitudeOf_abs]
    exact isCanonical_unpacked x
  have habs : signBit x.abs = true ↔ signOf (unpacked x).abs = .negative :=
    signBit_packed ((isNaN_unpackedAbs _).trans hx) hcanonical
  rw [← Bool.not_eq_true, habs, signOf_abs]
  exact nofun

theorem magnitude_abs (hx : x.isNaN = false) : magnitude x.abs = magnitude x :=
  magnitude_packed_of_magnitudeOf hx ((isNaN_unpackedAbs _).trans hx) (magnitudeOf_abs _)

/-- Its value is that of the magnitude. -/
theorem value_abs (hx : x.isNaN = false) : value x.abs = (magnitude x).value := by
  rw [value, signBit_abs hx, magnitude_abs hx]
  exact one_mul _

theorem isFinite_abs (hx : x.isFinite = true) : x.abs.isFinite = true := by
  obtain ⟨hnan, hinf⟩ := isFinite_iff_not.1 hx
  exact isFinite_iff_not.2 ⟨(isNaN_abs x).trans hnan, (isInf_abs x).trans hinf⟩

theorem signBit_infinity : signBit infinity ≠ true := by decide +kernel

theorem isNaN_withSign (negative : Bool) (x : Float) :
    (withSign negative x).isNaN = x.isNaN := by
  rw [withSign]
  split
  · rw [isNaN_neg, isNaN_abs]
  · exact isNaN_abs x

/-- The sign is the one that was asked for. -/
theorem signBit_withSign (negative : Bool) (hx : x.isNaN = false) :
    signBit (withSign negative x) = negative := by
  cases negative with
  | false => exact signBit_abs hx
  | true =>
    show signBit (-x.abs) = true
    rw [signBit_neg ((isNaN_abs x).trans hx), signBit_abs hx, Bool.not_false]

/-! ## Sign and magnitude -/

/-- The bits of a double are the sign bit and those of the magnitude. -/
theorem toNat_toBits_eq (x : Float) :
    x.toBits.toNat = (if signBit x then 2 ^ 63 else 0) + x.toBits.toNat % 2 ^ 63 := by
  have hlt : x.toBits.toNat < 2 ^ 64 := x.toBits.toNat_lt
  have hsign : signBit x = true ↔ 2 ^ 63 ≤ x.toBits.toNat := by
    rw [signBit, decide_eq_true_iff, ge_iff_le, UInt64.le_iff_toNat_le]
    rfl
  split
  · rename_i h
    have hle := hsign.1 h
    omega
  · rename_i h
    have hnot := hsign.not.1 h
    omega

/-- Two doubles with the same sign bit and the same magnitude are the same. -/
theorem eq_of_signBit_of_magnitude (hsign : signBit x = signBit y)
    (hmagnitude : magnitude x = magnitude y) : x = y := by
  have hrest : x.toBits.toNat % 2 ^ 63 = y.toBits.toNat % 2 ^ 63 := by
    simp only [magnitude, Nat.pow_eq] at hmagnitude
    split at hmagnitude <;> split at hmagnitude <;> injection hmagnitude <;> omega
  have hbits : x.toBits = y.toBits := by
    apply UInt64.toNat_inj.1
    rw [toNat_toBits_eq x, toNat_toBits_eq y, hsign, hrest]
  obtain ⟨⟨_, _⟩⟩ := x
  obtain ⟨⟨_, _⟩⟩ := y
  cases hbits
  rfl

/-- Two changes of sign cancel each other. -/
theorem neg_neg_eq (hx : x.isNaN = false) : -(-x) = x := by
  have hnan : (-x).isNaN = false := (isNaN_neg x).trans hx
  refine eq_of_signBit_of_magnitude ?_ ?_
  · rw [signBit_neg hnan, signBit_neg hx, Bool.not_not]
  · rw [magnitude_neg hnan, magnitude_neg hx]

theorem abs_neg_eq (hx : x.isNaN = false) : (-x).abs = x.abs := by
  have hnan : (-x).isNaN = false := (isNaN_neg x).trans hx
  refine eq_of_signBit_of_magnitude ?_ ?_
  · rw [signBit_abs hnan, signBit_abs hx]
  · rw [magnitude_abs hnan, magnitude_abs hx, magnitude_neg hx]

/-- The other sign is that of the negated double. -/
theorem withSign_not (negative : Bool) (hx : x.isNaN = false) :
    withSign (!negative) x = -withSign negative x := by
  cases negative with
  | false => rfl
  | true => exact (neg_neg_eq ((isNaN_abs x).trans hx)).symm

/-- A number equals itself. -/
theorem beq_self_eq_true_of_isNaN (hx : x.isNaN = false) : (x == x) = true := by
  have hnan : (unpacked x).isNaN = false := hx
  rw [beq_iff_compare]
  generalize unpacked x = u at hnan
  cases u with
  | notANumber => cases hnan
  | infinity s => cases s <;> rfl
  | zero s => rfl
  | finite s m e hm =>
    have hself : (compare e e).then (compare m m) = .eq := by
      rw [compare_eq_iff_eq.2 rfl, compare_eq_iff_eq.2 rfl]
      rfl
    cases s with
    | negative => exact congrArg (fun o => some (Ordering.swap o)) hself
    | positive => exact congrArg some hself

end Plotter.Double
