import Plotter.Proofs.NearestEven
import Plotter.Proofs.Rounding

/-!
# The exact value of a double

A double that is a number has an exact value; an infinity counts as the least power of two beyond
all doubles. Doubles compare as their values do, and the finite ones are those with a value below
that power. A double is packed from a sign, a significand and an exponent; it has their value again,
or is an infinity if that is too large.
-/

namespace Plotter.Double

open Float.Model (Format UnpackedFloat)
open Float.Model.UnpackedFloat

/-- The magnitude as a number. -/
def Magnitude.value (m : Magnitude) : ℚ := m.significand * 2 ^ m.exponent

/-- The significand has 53 binary digits, or the exponent is the least one. -/
structure Magnitude.IsCanonical (m : Magnitude) : Prop where
  significand_lt : m.significand < 2 ^ 53
  le_exponent : -1074 ≤ m.exponent
  normalized : 2 ^ 52 ≤ m.significand ∨ m.exponent = -1074

/-- The exact value: the magnitude with its sign. -/
def value (x : Float) : ℚ := (if signBit x then -1 else 1) * (magnitude x).value

/-- The sign as a factor. -/
def factor : Sign → ℚ
  | .negative => -1
  | .positive => 1

/-- A double taken apart. -/
abbrev unpacked (x : Float) : UnpackedFloat := x.toModel.unpack

/-- A double put together. -/
def packed (u : UnpackedFloat) : Float := .ofModel (.pack u)

/-- The sign of a number that has been taken apart. -/
def signOf : UnpackedFloat → Sign
  | .infinity s => s
  | .notANumber => .positive
  | .zero s => s
  | .finite s _ _ _ => s

/-- The magnitude of a number that has been taken apart. -/
def magnitudeOf : UnpackedFloat → Magnitude
  | .infinity _ => ⟨2 ^ 52, 972⟩
  | .notANumber => ⟨0, -1074⟩
  | .zero _ => ⟨0, -1074⟩
  | .finite _ m e _ => ⟨m, e⟩

/-- The value of a number that has been taken apart. -/
def exactValue (u : UnpackedFloat) : ℚ := factor (signOf u) * (magnitudeOf u).value

/-- The value that counts as infinite: the least power of two beyond the doubles. -/
def limit : ℚ := 2 ^ (1024 : ℤ)

/-- The value brought between the infinities. -/
def saturated (q : ℚ) : ℚ := max (-limit) (min limit q)

variable {x y : Float} {u v : UnpackedFloat} {s : Sign} {m n : Magnitude} {q : ℚ}

/-! ## Magnitudes -/

theorem Magnitude.value_nonneg (m : Magnitude) : 0 ≤ m.value :=
  mul_nonneg (Nat.cast_nonneg _) (zpow_two_pos _).le

theorem Magnitude.value_pos_iff : 0 < m.value ↔ 0 < m.significand := by
  rw [Magnitude.value, mul_pos_iff_of_pos_right (zpow_two_pos _), Nat.cast_pos]

/-- A canonical magnitude has 53 binary digits at most. -/
theorem Magnitude.IsCanonical.value_lt (hm : m.IsCanonical) : m.value < 2 ^ (m.exponent + 53) := by
  have hlt : (m.significand : ℚ) < 2 ^ (53 : ℤ) := by exact_mod_cast hm.significand_lt
  rw [Magnitude.value, zpow_add₀ two_ne_zero, mul_comm]
  exact mul_lt_mul_of_pos_left hlt (zpow_two_pos _)

/-- Above the least exponent the significand has all its digits. -/
theorem Magnitude.IsCanonical.le_value (hm : m.IsCanonical) (h : -1074 < m.exponent) :
    2 ^ (m.exponent + 52) ≤ m.value := by
  have hnormal : 2 ^ 52 ≤ m.significand := hm.normalized.resolve_right (by omega)
  have hle : (2 : ℚ) ^ (52 : ℤ) ≤ m.significand := by exact_mod_cast hnormal
  rw [Magnitude.value, zpow_add₀ two_ne_zero, mul_comm]
  exact mul_le_mul_of_nonneg_right hle (zpow_two_pos _).le

/-- Of two canonical magnitudes the one with the greater exponent is the greater. -/
theorem Magnitude.IsCanonical.value_lt_value (hm : m.IsCanonical) (hn : n.IsCanonical)
    (h : m.exponent < n.exponent) : m.value < n.value := by
  have hmin := hm.le_exponent
  calc m.value
    _ < 2 ^ (m.exponent + 53) := hm.value_lt
    _ ≤ 2 ^ (n.exponent + 52) := zpow_two_le (by omega)
    _ ≤ n.value := hn.le_value (by omega)

/-- Canonical magnitudes compare by exponent first and by significand then. -/
theorem Magnitude.IsCanonical.compare_eq (hm : m.IsCanonical) (hn : n.IsCanonical) :
    (compare m.exponent n.exponent).then (compare m.significand n.significand) =
      cmp m.value n.value := by
  rcases lt_trichotomy m.exponent n.exponent with h | h | h
  · rw [compare_lt_iff_lt.2 h, (cmp_eq_lt_iff _ _).2 (hm.value_lt_value hn h)]
    rfl
  · have hunit := zpow_two_pos n.exponent
    have hcast : cmp (m.significand : ℚ) n.significand = cmp m.significand n.significand :=
      Nat.strictMono_cast.cmp_map_eq _ _
    rw [compare_eq_iff_eq.2 h, Magnitude.value, Magnitude.value, h, cmp_mul_pos_right hunit, hcast,
      cmp_eq_compare]
    rfl
  · rw [compare_gt_iff_gt.2 h, (cmp_eq_gt_iff _ _).2 (hn.value_lt_value hm h)]
    rfl

/-! ## Saturation -/

theorem limit_pos : 0 < limit := zpow_two_pos 1024

/-- What is not beyond the infinities stays as it is. -/
theorem saturated_of_abs_le (h : |q| ≤ limit) : saturated q = q := by
  obtain ⟨hlow, hhigh⟩ := abs_le.1 h
  rw [saturated, min_eq_right hhigh, max_eq_right hlow]

/-- What reaches infinity becomes infinity. -/
theorem saturated_of_le (h : limit ≤ q) : saturated q = limit := by
  have hpos := limit_pos
  rw [saturated, min_eq_left h, max_eq_right (by linarith)]

theorem saturated_of_le_neg (h : q ≤ -limit) : saturated q = -limit := by
  rw [saturated]
  exact max_eq_left ((min_le_right _ _).trans h)

/-- Saturation is the same on both sides. -/
theorem saturated_neg (q : ℚ) : saturated (-q) = -saturated q := by
  rcases le_total |q| limit with h | h
  · rw [saturated_of_abs_le h, saturated_of_abs_le ((abs_neg q).trans_le h)]
  · rcases le_abs.1 h with h | h
    · rw [saturated_of_le h, saturated_of_le_neg (neg_le_neg h)]
    · rw [saturated_of_le h, saturated_of_le_neg (le_neg.1 h), neg_neg]

theorem saturated_factor_mul (s : Sign) (q : ℚ) :
    saturated (factor s * q) = factor s * saturated q := by
  cases s with
  | negative => rw [factor, neg_one_mul, neg_one_mul, saturated_neg]
  | positive => rw [factor, one_mul, one_mul]

/-- It makes nothing finite that is not. -/
theorem abs_saturated_lt_iff : |saturated q| < limit ↔ |q| < limit := by
  have hpos := limit_pos
  rw [abs_lt, abs_lt, saturated, lt_max_iff, max_lt_iff, lt_min_iff, min_lt_iff]
  constructor
  · rintro ⟨h | ⟨-, hlow⟩, -, h' | hhigh⟩ <;> constructor <;> linarith
  · rintro ⟨hlow, hhigh⟩
    exact ⟨.inr ⟨by linarith, hlow⟩, by linarith, .inr hhigh⟩

/-! ## Taking apart -/

/-- The magnitude of an exponent field and a fraction. -/
def fieldMagnitude (exponent fraction : Nat) : Magnitude :=
  if exponent = 0 then ⟨fraction, -1074⟩ else ⟨2 ^ 52 + fraction, exponent - 1075⟩

section Fields

variable {exponent fraction : Nat}

/-- Fields of bits make a canonical magnitude. -/
theorem isCanonical_fieldMagnitude (exponent : Nat) (hfraction : fraction < 2 ^ 52) :
    (fieldMagnitude exponent fraction).IsCanonical := by
  rw [fieldMagnitude]
  split
  · exact ⟨hfraction.trans (by norm_num), le_rfl, .inr rfl⟩
  · exact ⟨by dsimp only; omega, by dsimp only; omega, .inl (Nat.le_add_right _ _)⟩

/-- The magnitude of any double is canonical. -/
theorem isCanonical_magnitude (x : Float) : (magnitude x).IsCanonical :=
  isCanonical_fieldMagnitude _ (Nat.mod_lt _ (by norm_num))

/-- The sign bit is read off the fields. -/
theorem signBit_of_fields
    (hbits : x.toBits.toNat = s.toBitVec.toNat * 2 ^ 63 + exponent * 2 ^ 52 + fraction)
    (hexponent : exponent < 2 ^ 11) (hfraction : fraction < 2 ^ 52) :
    signBit x = true ↔ s = .negative := by
  have hge : signBit x = true ↔ 2 ^ 63 ≤ x.toBits.toNat := by
    rw [signBit, decide_eq_true_iff, ge_iff_le, UInt64.le_iff_toNat_le]
    rfl
  rw [hge, hbits]
  cases s with
  | negative => exact iff_of_true (by simp [Sign.toBitVec]; omega) rfl
  | positive => exact iff_of_false (by simp [Sign.toBitVec]; omega) nofun

/-- So is the magnitude. -/
theorem magnitude_of_fields
    (hbits : x.toBits.toNat = s.toBitVec.toNat * 2 ^ 63 + exponent * 2 ^ 52 + fraction)
    (hexponent : exponent < 2 ^ 11) (hfraction : fraction < 2 ^ 52) :
    magnitude x = fieldMagnitude exponent fraction := by
  have hrest : x.toBits.toNat % Nat.pow 2 63 = exponent * 2 ^ 52 + fraction := by
    show x.toBits.toNat % 2 ^ 63 = _
    omega
  have hfield : (exponent * 2 ^ 52 + fraction) / Nat.pow 2 52 = exponent := by
    show (exponent * 2 ^ 52 + fraction) / 2 ^ 52 = _
    omega
  have hlow : (exponent * 2 ^ 52 + fraction) % Nat.pow 2 52 = fraction := by
    show (exponent * 2 ^ 52 + fraction) % 2 ^ 52 = _
    omega
  simp only [magnitude, hrest, hfield, hlow]
  rfl

end Fields

theorem toNat_unpackSign (b : Pattern) :
    (Sign.ofBitVec (unpackSign b)).toBitVec.toNat = b.toNat / 2 ^ 63 := by
  have hsign : (unpackSign b).toNat = b.toNat / 2 ^ 63 := by
    have hlt : b.toNat < 2 ^ 64 := b.isLt
    simp [unpackSign, Nat.shiftRight_eq_div_pow]
    omega
  have hcases : unpackSign b = 0#1 ∨ unpackSign b = 1#1 := by
    have hlt := (unpackSign b).isLt
    have hor : (unpackSign b).toNat = 0 ∨ (unpackSign b).toNat = 1 := by omega
    exact hor.imp BitVec.eq_of_toNat_eq BitVec.eq_of_toNat_eq
  rw [← hsign]
  rcases hcases with h | h <;> rw [h] <;> rfl

theorem toNat_hiddenBit_append (f : BitVec 52) : (1#1 ++ f).toNat = 2 ^ 52 + f.toNat := by
  rw [BitVec.toNat_append, ← Nat.shiftLeft_add_eq_or_of_lt f.isLt]
  rfl

/-- The bits of a double are its sign, its exponent field and its fraction. -/
theorem toNat_eq_fields (b : Pattern) :
    b.toNat = (Sign.ofBitVec (unpackSign b)).toBitVec.toNat * 2 ^ 63 +
      (unpackExponent b).toNat * 2 ^ 52 + (unpackMantissa b).toNat := by
  have hlt : b.toNat < 2 ^ 64 := b.isLt
  rw [toNat_unpackSign, toNat_unpackExponent, toNat_unpackMantissa]
  omega

/-- A number taken apart has the sign of its bits. -/
theorem signOf_unpack (b : Pattern) (hb : (UnpackedFloat.unpack .binary64 b).isNaN = false) :
    signOf (UnpackedFloat.unpack .binary64 b) = Sign.ofBitVec (unpackSign b) := by
  revert hb
  rw [UnpackedFloat.unpack]
  split
  · split
    · exact fun _ => rfl
    · exact nofun
  · split
    · split <;> exact fun _ => rfl
    · exact fun _ => rfl

/-- It has the magnitude of its exponent field and its fraction. -/
theorem magnitudeOf_unpack (b : Pattern) (hb : (UnpackedFloat.unpack .binary64 b).isNaN = false) :
    magnitudeOf (UnpackedFloat.unpack .binary64 b) =
      fieldMagnitude (unpackExponent b).toNat (unpackMantissa b).toNat := by
  revert hb
  rw [UnpackedFloat.unpack]
  split
  · rename_i hmax
    split
    · rename_i hnone
      rw [hmax, hnone]
      exact fun _ => rfl
    · exact nofun
  · split
    · rename_i hzero
      rw [hzero]
      split
      · rename_i hnone
        rw [hnone]
        exact fun _ => rfl
      · exact fun _ => rfl
    · rename_i hzero
      have hne : (unpackExponent b).toNat ≠ 0 := fun h => hzero (BitVec.eq_of_toNat_eq h)
      intro _
      show Magnitude.mk (1#1 ++ unpackMantissa b).toNat _ = _
      rw [toNat_hiddenBit_append, fieldMagnitude, if_neg hne]
      rfl

theorem signBit_iff (hx : x.isNaN = false) : signBit x = true ↔ signOf (unpacked x) = .negative := by
  obtain ⟨b, hb⟩ : ∃ b : Pattern, b = x.toBits.toBitVec := ⟨_, rfl⟩
  have hunpack : unpacked x = UnpackedFloat.unpack .binary64 b := hb ▸ rfl
  have hbits : x.toBits.toNat = b.toNat := hb ▸ rfl
  rw [hunpack, signOf_unpack b (hunpack ▸ hx)]
  exact signBit_of_fields (hbits.trans (toNat_eq_fields b)) (unpackExponent b).isLt
    (unpackMantissa b).isLt

theorem magnitude_eq (hx : x.isNaN = false) : magnitude x = magnitudeOf (unpacked x) := by
  obtain ⟨b, hb⟩ : ∃ b : Pattern, b = x.toBits.toBitVec := ⟨_, rfl⟩
  have hunpack : unpacked x = UnpackedFloat.unpack .binary64 b := hb ▸ rfl
  have hbits : x.toBits.toNat = b.toNat := hb ▸ rfl
  rw [hunpack, magnitudeOf_unpack b (hunpack ▸ hx)]
  exact magnitude_of_fields (hbits.trans (toNat_eq_fields b)) (unpackExponent b).isLt
    (unpackMantissa b).isLt

theorem factor_of_signBit (h : signBit x = true ↔ s = .negative) :
    (if signBit x then -1 else 1) = factor s := by
  cases s with
  | negative => rw [if_pos (h.2 rfl), factor]
  | positive =>
    rw [if_neg fun hx => nomatch h.1 hx]
    rfl

/-- Taking a double apart keeps its value. -/
theorem value_eq_exactValue (hx : x.isNaN = false) : value x = exactValue (unpacked x) := by
  rw [value, factor_of_signBit (signBit_iff hx), magnitude_eq hx, exactValue]

theorem isCanonical_unpacked (x : Float) : (magnitudeOf (unpacked x)).IsCanonical := by
  cases hx : x.isNaN with
  | false => exact magnitude_eq hx ▸ isCanonical_magnitude x
  | true =>
    have hnan : (unpacked x).isNaN = true := hx
    cases hu : unpacked x with
    | notANumber => exact ⟨by simp [magnitudeOf], le_rfl, .inr rfl⟩
    | infinity | zero | finite => cases hu ▸ hnan

/-! ## Putting together -/

/-- The bits of three fields, as a number. -/
theorem toNat_packComponents (s : Sign) (exponent : BitVec 11) (fraction : BitVec 52) :
    (packComponents .binary64 s exponent fraction).toNat =
      s.toBitVec.toNat * 2 ^ 63 + exponent.toNat * 2 ^ 52 + fraction.toNat := by
  have hexponent := exponent.isLt
  have hfraction := fraction.isLt
  rw [packComponents, BitVec.toNat_append, BitVec.toNat_append,
    ← Nat.shiftLeft_add_eq_or_of_lt hfraction, ← Nat.shiftLeft_add_eq_or_of_lt hexponent,
    Nat.shiftLeft_eq, Nat.shiftLeft_eq]
  omega

theorem log2_add_one_eq_iff {m : Nat} (hm : 0 < m) (hlt : m < 2 ^ 53) :
    m.log2 + 1 = 53 ↔ 2 ^ 52 ≤ m := by
  have hhigh : m.log2 < 53 := (Nat.log2_lt hm.ne').2 hlt
  rw [← Nat.le_log2 hm.ne']
  omega

/-- The magnitude of a normal number comes back from its fields. -/
theorem fieldMagnitude_of_normal {m : Nat} {e : Int} (hm : 2 ^ 52 ≤ m) (he : -1074 ≤ e) :
    fieldMagnitude (e + 1075).toNat (m - 2 ^ 52) = ⟨m, e⟩ := by
  rw [fieldMagnitude, if_neg (by omega), Nat.add_sub_cancel' hm, Int.toNat_of_nonneg (by omega),
    add_sub_cancel_right]

/-- A canonical number has its own magnitude after packing, unless its exponent is too large. -/
theorem exists_fields_of_pack (hu : u.isNaN = false) (hcanonical : (magnitudeOf u).IsCanonical) :
    ∃ (exponent : BitVec 11) (fraction : BitVec 52),
      UnpackedFloat.pack .binary64 u = packComponents .binary64 (signOf u) exponent fraction ∧
        fieldMagnitude exponent.toNat fraction.toNat =
          if (magnitudeOf u).exponent < 972 then magnitudeOf u else ⟨2 ^ 52, 972⟩ := by
  fun_cases UnpackedFloat.pack .binary64 u with
  | case1 => cases hu
  | case2 s => exact ⟨_, _, rfl, rfl⟩
  | case3 s => exact ⟨_, _, rfl, rfl⟩
  | case4 s m e hm biased h =>
    have hlarge : 2048 ≤ (e + 1023 + 52).toNat + 1 := h
    refine ⟨_, _, rfl, ?_⟩
    show _ = if e < 972 then _ else _
    rw [if_neg (by omega)]
    rfl
  | case5 s m e hm bits biased h hbits =>
    have hsmall : ¬ 2048 ≤ (e + 1023 + 52).toNat + 1 := h
    have hmin : -1074 ≤ e := hcanonical.le_exponent
    have hlt : m < 2 ^ 53 := hcanonical.significand_lt
    have hle : 2 ^ 52 ≤ m := (log2_add_one_eq_iff hm hlt).1 hbits
    have hexponent : (BitVec.ofNat 11 biased).toNat = (e + 1075).toNat := by
      show (e + 1023 + 52).toNat % 2048 = _
      omega
    have hfraction : (BitVec.ofNat 52 m).toNat = m - 2 ^ 52 := by
      show m % 2 ^ 52 = _
      omega
    refine ⟨_, _, rfl, ?_⟩
    show fieldMagnitude (BitVec.ofNat 11 biased).toNat (BitVec.ofNat 52 m).toNat =
      if e < 972 then ⟨m, e⟩ else _
    rw [if_pos (by omega), hexponent, hfraction, fieldMagnitude_of_normal hle hmin]
  | case6 s m e hm bits biased h hbits =>
    have hsubnormal : ¬ 2 ^ 52 ≤ m :=
      (log2_add_one_eq_iff hm hcanonical.significand_lt).not.1 hbits
    have hmin : e = -1074 := hcanonical.normalized.resolve_left hsubnormal
    have hfraction : (BitVec.ofNat 52 m).toNat = m := by
      show m % 2 ^ 52 = _
      omega
    refine ⟨_, _, rfl, ?_⟩
    show fieldMagnitude 0 (BitVec.ofNat 52 m).toNat = if e < 972 then ⟨m, e⟩ else _
    rw [if_pos (by omega), hfraction, fieldMagnitude, if_pos rfl, hmin]

/-- Packing keeps the sign. -/
theorem signBit_packed (hu : u.isNaN = false) (hcanonical : (magnitudeOf u).IsCanonical) :
    signBit (packed u) = true ↔ signOf u = .negative := by
  obtain ⟨exponent, fraction, hpack, -⟩ := exists_fields_of_pack hu hcanonical
  refine signBit_of_fields ?_ exponent.isLt fraction.isLt
  rw [← toNat_packComponents, ← hpack]
  rfl

/-- It keeps the magnitude of what is no larger than a double, and gives that of infinity otherwise.
-/
theorem magnitude_packed (hu : u.isNaN = false) (hcanonical : (magnitudeOf u).IsCanonical) :
    magnitude (packed u) =
      if (magnitudeOf u).exponent < 972 then magnitudeOf u else ⟨2 ^ 52, 972⟩ := by
  obtain ⟨exponent, fraction, hpack, hfields⟩ := exists_fields_of_pack hu hcanonical
  rw [← hfields]
  refine magnitude_of_fields (s := signOf u) ?_ exponent.isLt fraction.isLt
  rw [← toNat_packComponents, ← hpack]
  rfl

theorem isNaN_packed (u : UnpackedFloat) : (packed u).isNaN = u.isNaN := isNaN_unpack_pack u

theorem value_inf : (⟨2 ^ 52, 972⟩ : Magnitude).value = limit := by
  rw [Magnitude.value, limit, show (1024 : ℤ) = 52 + 972 by norm_num, zpow_add₀ two_ne_zero]
  norm_num

/-- Packing keeps the value as far as there are doubles. -/
theorem value_packed (hu : u.isNaN = false) (hcanonical : (magnitudeOf u).IsCanonical) :
    value (packed u) = saturated (exactValue u) := by
  rw [value, factor_of_signBit (signBit_packed hu hcanonical), magnitude_packed hu hcanonical,
    exactValue, saturated_factor_mul]
  have hnonneg := (magnitudeOf u).value_nonneg
  split
  · have hlt : (magnitudeOf u).value < limit :=
      hcanonical.value_lt.trans_le (zpow_two_le (by omega))
    rw [saturated_of_abs_le (by rw [abs_of_nonneg hnonneg]; exact hlt.le)]
  · have hle : limit ≤ (magnitudeOf u).value :=
      (zpow_two_le (by omega)).trans (hcanonical.le_value (by omega))
    rw [saturated_of_le hle, value_inf]

/-! ## Signs -/

theorem factor_neg (s : Sign) : factor (-s) = -factor s := by
  cases s with
  | negative => exact (neg_neg 1).symm
  | positive => rfl

/-- A sign does not change the magnitude. -/
theorem abs_factor_mul (s : Sign) (q : ℚ) : |factor s * q| = |q| := by
  cases s with
  | negative => rw [factor, neg_one_mul, abs_neg]
  | positive => rw [factor, one_mul]

theorem magnitudeOf_neg (u : UnpackedFloat) : magnitudeOf u.neg = magnitudeOf u := by
  cases u <;> rfl

theorem isFinite_unpackedNeg (u : UnpackedFloat) : u.neg.isFinite = u.isFinite := by
  cases u <;> rfl

theorem isNaN_unpackedNeg (u : UnpackedFloat) : u.neg.isNaN = u.isNaN := by
  cases u <;> rfl

theorem exactValue_zero (s : Sign) : exactValue (.zero s) = 0 := by
  show factor s * Magnitude.value ⟨0, -1074⟩ = 0
  rw [Magnitude.value, Nat.cast_zero, zero_mul, mul_zero]

/-- Negation negates the exact value. -/
theorem exactValue_neg (u : UnpackedFloat) : exactValue u.neg = -exactValue u := by
  cases u with
  | notANumber =>
    show exactValue .notANumber = -exactValue .notANumber
    have hzero : exactValue .notANumber = 0 := exactValue_zero .positive
    rw [hzero, neg_zero]
  | infinity s | zero s | finite s m e hm =>
    show factor (-s) * Magnitude.value _ = -(factor s * Magnitude.value _)
    rw [factor_neg, neg_mul]
    rfl

theorem isCanonical_unpackedNeg (x : Float) : (magnitudeOf (unpacked x).neg).IsCanonical := by
  rw [magnitudeOf_neg]
  exact isCanonical_unpacked x

/-! ## Comparing values -/

/-- The finite doubles are the numbers whose values are below the infinite ones. -/
theorem isFinite_iff (hx : x.isNaN = false) : x.isFinite = true ↔ |value x| < limit := by
  have hcanonical := isCanonical_unpacked x
  have hbounded : Bounded (unpacked x) := bounded_unpack _
  have hnan : (unpacked x).isNaN = false := hx
  have hfinite : x.isFinite = (unpacked x).isFinite := rfl
  rw [value_eq_exactValue hx, hfinite, exactValue, abs_factor_mul,
    abs_of_nonneg (Magnitude.value_nonneg _)]
  generalize unpacked x = u at *
  cases u with
  | notANumber => cases hnan
  | infinity s =>
    exact iff_of_false nofun (not_lt.2 value_inf.ge)
  | zero s =>
    refine iff_of_true rfl ?_
    show Magnitude.value ⟨0, -1074⟩ < limit
    rw [Magnitude.value, Nat.cast_zero, zero_mul]
    exact limit_pos
  | finite s m e hm =>
    have he : e ≤ 971 := hbounded
    refine iff_of_true rfl (hcanonical.value_lt.trans_le (zpow_two_le ?_))
    show e + 53 ≤ 1024
    omega

/-- Finite are the numbers that are not infinite. -/
theorem isFinite_iff_not : x.isFinite = true ↔ x.isNaN = false ∧ x.isInf = false := by
  show (unpacked x).isFinite = true ↔ (unpacked x).isNaN = false ∧ (unpacked x).isInf = false
  cases unpacked x with
  | notANumber => exact iff_of_false nofun fun h => nomatch h.1
  | infinity => exact iff_of_false nofun fun h => nomatch h.2
  | zero | finite => exact iff_of_true rfl ⟨rfl, rfl⟩

theorem isNaN_of_isFinite (hx : x.isFinite = true) : x.isNaN = false := (isFinite_iff_not.1 hx).1

theorem negative_lt (hq : 0 < q) : factor .negative * q < 0 := by
  rw [factor]
  linarith

theorem lt_positive (hq : 0 < q) : 0 < factor .positive * q := by
  rw [factor, one_mul]
  exact hq

/-- Nonzero finite numbers compare as their exact values do. -/
theorem compare_nonzero {m m' : Nat} {e e' : Int} {s s' : Sign} (hm : 0 < m) (hm' : 0 < m')
    (hcanonical : (⟨m, e⟩ : Magnitude).IsCanonical)
    (hcanonical' : (⟨m', e'⟩ : Magnitude).IsCanonical) :
    (UnpackedFloat.finite s m e hm).compare (.finite s' m' e' hm') =
      some (cmp (exactValue (.finite s m e hm)) (exactValue (.finite s' m' e' hm'))) := by
  have hpos : 0 < (⟨m, e⟩ : Magnitude).value := Magnitude.value_pos_iff.2 hm
  have hpos' : 0 < (⟨m', e'⟩ : Magnitude).value := Magnitude.value_pos_iff.2 hm'
  have hcompare : (compare e e').then (compare m m') = cmp _ _ := hcanonical.compare_eq hcanonical'
  cases s with
  | negative =>
    cases s' with
    | negative =>
      show some (Ordering.swap _) = some (cmp (-1 * _) (-1 * _))
      rw [hcompare, cmp_mul_neg_left (by norm_num), cmp_swap]
      rfl
    | positive =>
      have hlt := (negative_lt hpos).trans (lt_positive hpos')
      exact congrArg some ((cmp_eq_lt_iff _ _).2 hlt).symm
  | positive =>
    cases s' with
    | negative =>
      have hlt := (negative_lt hpos').trans (lt_positive hpos)
      exact congrArg some ((cmp_eq_gt_iff _ _).2 hlt).symm
    | positive =>
      show some _ = some (cmp (1 * _) (1 * _))
      rw [one_mul, one_mul, hcompare]
      rfl

/-- The magnitude is that of the value. -/
theorem abs_value (x : Float) : |value x| = (magnitude x).value := by
  have hnonneg := (magnitude x).value_nonneg
  rw [value]
  split
  · rw [neg_one_mul, abs_neg, abs_of_nonneg hnonneg]
  · rw [one_mul, abs_of_nonneg hnonneg]

/-- A value is a whole number of least units. -/
theorem exists_units (x : Float) : ∃ i : ℤ, value x = i * leastUnit := by
  have hmin := (isCanonical_magnitude x).le_exponent
  have hscale : (2 : ℚ) ^ (magnitude x).exponent =
      2 ^ ((magnitude x).exponent + 1074).toNat * leastUnit := by
    rw [leastUnit, ← zpow_natCast, ← zpow_add₀ two_ne_zero]
    congr 1
    omega
  refine ⟨(if signBit x then -1 else 1) * ((magnitude x).significand *
    2 ^ ((magnitude x).exponent + 1074).toNat), ?_⟩
  rw [value, Magnitude.value, hscale]
  push_cast
  ring

/-- The value of any double can be represented. -/
theorem representable_value (x : Float) : Representable (value x) := by
  have hcanonical := isCanonical_magnitude x
  refine ⟨(if signBit x then -1 else 1) * (magnitude x).significand, (magnitude x).exponent, ?_,
    hcanonical.le_exponent, ?_⟩
  · have hlt : |((magnitude x).significand : ℤ)| < 2 ^ 53 := by
      rw [Nat.abs_cast]
      exact_mod_cast hcanonical.significand_lt
    split
    · rwa [neg_one_mul, abs_neg]
    · rwa [one_mul]
  · rw [value, Magnitude.value]
    push_cast
    ring

/-- No finite double is beyond the greatest one. -/
theorem abs_value_le (hx : x.isFinite = true) : |value x| ≤ (2 ^ 53 - 1) * topUnit := by
  have hcanonical := isCanonical_unpacked x
  have hbounded : Bounded (unpacked x) := bounded_unpack _
  rw [value_eq_exactValue (isNaN_of_isFinite hx), exactValue, abs_factor_mul,
    abs_of_nonneg (Magnitude.value_nonneg _)]
  have hx : (unpacked x).isFinite = true := hx
  generalize unpacked x = u at *
  cases u with
  | notANumber | infinity => cases hx
  | zero s =>
    have hzero : (magnitudeOf (.zero s)).value = 0 := by
      show ((0 : ℕ) : ℚ) * 2 ^ _ = 0
      rw [Nat.cast_zero, zero_mul]
    rw [hzero]
    exact mul_nonneg (by norm_num) topUnit_pos.le
  | finite s m e hm =>
    have he : e ≤ 971 := hbounded
    have hm : (m : ℚ) ≤ 2 ^ 53 - 1 := by
      have hlt : m + 1 ≤ 2 ^ 53 := hcanonical.significand_lt
      have hcast : (m : ℚ) + 1 ≤ 2 ^ 53 := by exact_mod_cast hlt
      linarith
    show (m : ℚ) * 2 ^ e ≤ _
    exact mul_le_mul hm (zpow_two_le he) (zpow_two_pos e).le (by norm_num)

/-- Finite doubles lie below the bound. -/
theorem abs_value_lt_overflowBound (hx : x.isFinite = true) : |value x| < overflowBound := by
  have hunit := topUnit_pos
  rw [cast_overflowBound]
  exact (abs_value_le hx).trans_lt (mul_lt_mul_of_pos_right (by norm_num) hunit)

/-- Comparison of finite doubles is that of their values. -/
theorem compare_eq (hx : x.isFinite = true) (hy : y.isFinite = true) :
    (unpacked x).compare (unpacked y) = some (cmp (value x) (value y)) := by
  have hcanonical := isCanonical_unpacked x
  have hcanonical' := isCanonical_unpacked y
  rw [value_eq_exactValue (isNaN_of_isFinite hx), value_eq_exactValue (isNaN_of_isFinite hy)]
  have hx : (unpacked x).isFinite = true := hx
  have hy : (unpacked y).isFinite = true := hy
  generalize unpacked x = u at *
  generalize unpacked y = v at *
  cases u with
  | notANumber | infinity => cases hx
  | zero s =>
    rw [exactValue_zero]
    cases v with
    | notANumber | infinity => cases hy
    | zero s' =>
      rw [exactValue_zero, cmp_self_eq_eq]
      rfl
    | finite s' m' e' hm' =>
      have hpos : 0 < (magnitudeOf (.finite s' m' e' hm')).value := Magnitude.value_pos_iff.2 hm'
      cases s' with
      | negative => exact congrArg some ((cmp_eq_gt_iff _ _).2 (negative_lt hpos)).symm
      | positive => exact congrArg some ((cmp_eq_lt_iff _ _).2 (lt_positive hpos)).symm
  | finite s m e hm =>
    cases v with
    | notANumber | infinity => cases hy
    | zero s' =>
      have hpos : 0 < (magnitudeOf (.finite s m e hm)).value := Magnitude.value_pos_iff.2 hm
      rw [exactValue_zero]
      cases s with
      | negative => exact congrArg some ((cmp_eq_lt_iff _ _).2 (negative_lt hpos)).symm
      | positive => exact congrArg some ((cmp_eq_gt_iff _ _).2 (lt_positive hpos)).symm
    | finite s' m' e' hm' => exact compare_nonzero hm hm' hcanonical hcanonical'

/-- The order of doubles is that of the comparison. -/
theorem lt_iff_compare : x < y ↔ (unpacked x).compare (unpacked y) = some .lt := by
  show decide ((UnpackedFloat.compare (unpacked x) (unpacked y) == some .lt) = true) = true ↔ _
  rw [decide_eq_true_iff, beq_iff_eq]

theorem beq_iff_compare : (x == y) = true ↔ (unpacked x).compare (unpacked y) = some .eq := by
  show (UnpackedFloat.compare (unpacked x) (unpacked y) == some .eq) = true ↔ _
  rw [beq_iff_eq]

/-- Finite doubles are in the order of their values. -/
theorem lt_iff (hx : x.isFinite = true) (hy : y.isFinite = true) : x < y ↔ value x < value y := by
  rw [lt_iff_compare, compare_eq hx hy, Option.some_inj, cmp_eq_lt_iff]

theorem le_iff (hx : x.isFinite = true) (hy : y.isFinite = true) : x ≤ y ↔ value x ≤ value y := by
  rw [← not_lt, ← cmp_eq_gt_iff]
  show decide ((Option.any _ (UnpackedFloat.compare (unpacked x) (unpacked y))) = true) = true ↔ _
  rw [compare_eq hx hy]
  cases h : cmp (value x) (value y) <;> simp

/-- Finite doubles are equal if and only if their values are, whatever the signs of zeros. -/
theorem beq_iff (hx : x.isFinite = true) (hy : y.isFinite = true) :
    (x == y) = true ↔ value x = value y := by
  rw [beq_iff_compare, compare_eq hx hy, Option.some_inj, cmp_eq_eq_iff]

/-- What equals a finite double is finite. -/
theorem isFinite_of_beq (h : (x == y) = true) (hy : y.isFinite = true) : x.isFinite = true := by
  have hcompare := beq_iff_compare.1 h
  have hy : (unpacked y).isFinite = true := hy
  show (unpacked x).isFinite = true
  generalize unpacked x = u at *
  generalize unpacked y = v at *
  cases u with
  | zero | finite => rfl
  | notANumber => cases hcompare
  | infinity s =>
    cases v with
    | notANumber | infinity => cases hy
    | zero | finite => cases s <;> cases hcompare

/-- What is less than something is a number. -/
theorem isNaN_of_lt (h : x < y) : x.isNaN = false := by
  rw [lt_iff_compare] at h
  show (unpacked x).isNaN = false
  cases hx : unpacked x with
  | notANumber =>
    rw [hx] at h
    cases h
  | infinity | zero | finite => rfl

/-- An infinity is on one side of a finite double. -/
theorem not_gt_of_isInf (hx : x.isInf = true) (hy : y.isFinite = true) (h : x < y) : ¬ y < x := by
  rw [lt_iff_compare] at h ⊢
  have hx : (unpacked x).isInf = true := hx
  have hy : (unpacked y).isFinite = true := hy
  generalize unpacked x = u at *
  generalize unpacked y = v at *
  cases u with
  | notANumber | zero | finite => cases hx
  | infinity s =>
    cases v with
    | notANumber | infinity => cases hy
    | zero | finite =>
      cases s with
      | negative => exact nofun
      | positive => cases h

end Plotter.Double
