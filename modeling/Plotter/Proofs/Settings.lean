import Mathlib.Tactic.SplitIfs
import Plotter.Sampling.Grid

/-!
# Grids from settings

Settings that may come from outside give a grid if and only if each of the three is read and
accepted. Otherwise there is one error for every setting at fault, which names it and says what is
wrong. The right bound is compared with the left one only if that is accepted itself.
-/

namespace Plotter

/-- A bound is read as a finite number. -/
def ReadsFinite (settings : List (String × Json)) (name : String) (x : Float) : Prop :=
  Grid.readBound (settings.lookup name) = .ok x ∧ x.isFinite = true

/-- The settings are read as the numbers of the grid. -/
structure Grid.IsReadFrom (g : Grid) (settings : List (String × Json)) : Prop where
  xMin : readBound (settings.lookup "x_min") = .ok g.xMin
  xMax : readBound (settings.lookup "x_max") = .ok g.xMax
  samples : readWhole (settings.lookup "samples") = .ok g.samples

/-- What is wrong with a bound by itself. -/
inductive BoundFault (settings : List (String × Json)) (name : String) : SettingFault → Prop where
  /-- It cannot be read. -/
  | unread {fault : SettingFault} : Grid.readBound (settings.lookup name) = .error fault →
      BoundFault settings name fault
  /-- It is infinite or no number. -/
  | infinite {x : Float} : Grid.readBound (settings.lookup name) = .ok x → x.isFinite = false →
      BoundFault settings name (.infiniteBound x)

/-- What is wrong with the right bound. -/
inductive RightFault (settings : List (String × Json)) : SettingFault → Prop where
  /-- The bound does not fit by itself. -/
  | bound {fault : SettingFault} : BoundFault settings "x_max" fault → RightFault settings fault
  /-- It is not above the left one. -/
  | unordered {a b : Float} : ReadsFinite settings "x_min" a → ReadsFinite settings "x_max" b →
      ¬ a < b → RightFault settings (.unordered b a)
  /-- It is above the left one, but the width is not finite. -/
  | tooWide {a b : Float} : ReadsFinite settings "x_min" a → ReadsFinite settings "x_max" b →
      a < b → (b - a).isFinite = false → RightFault settings (.tooWide a b)

/-- What is wrong with the number of points. -/
inductive CountFault (settings : List (String × Json)) : SettingFault → Prop where
  /-- It cannot be read. -/
  | unread {fault : SettingFault} : Grid.readWhole (settings.lookup "samples") = .error fault →
      CountFault settings fault
  /-- There are fewer than two points. -/
  | tooFew {n : Int} : Grid.readWhole (settings.lookup "samples") = .ok n → n < 2 →
      CountFault settings .greaterThanEqual
  /-- There are more points than a grid may have. -/
  | tooMany {n : Int} : Grid.readWhole (settings.lookup "samples") = .ok n → maxSamples < n →
      CountFault settings .lessThanEqual

/-- The error names a setting and says what is wrong with it. -/
inductive SettingError.Applies (settings : List (String × Json)) : SettingError → Prop where
  | xMin {fault : SettingFault} : BoundFault settings "x_min" fault →
      Applies settings ⟨"x_min", fault⟩
  | xMax {fault : SettingFault} : RightFault settings fault → Applies settings ⟨"x_max", fault⟩
  | samples {fault : SettingFault} : CountFault settings fault →
      Applies settings ⟨"samples", fault⟩

namespace Grid

variable {α β : Type} {settings : List (String × Json)} {g : Grid} {e : SettingError}
  {errors : List SettingError} {name : String} {fault : SettingFault} {a x : Float} {n : Int}
  {lower : Option Float}

/-! ## Checks -/

theorem bind_eq_ok_iff {r : Except SettingFault α} {f : α → Except SettingFault β} {b : β} :
    r >>= f = .ok b ↔ ∃ a, r = .ok a ∧ f a = .ok b := by
  cases r <;> simp [bind, Except.bind]

theorem bind_eq_error_iff {r : Except SettingFault α} {f : α → Except SettingFault β} :
    r >>= f = .error fault ↔ r = .error fault ∨ ∃ a, r = .ok a ∧ f a = .error fault := by
  cases r <;> simp [bind, Except.bind]

/-- A left bound that is accepted is passed on as it is. -/
theorem checkLower_eq_ok_iff {l : Lower} : checkLower x = .ok l ↔ x = l.val := by
  have hl := l.property
  rw [checkLower]
  split
  · rw [Except.ok.injEq, Subtype.ext_iff]
  · rename_i hx
    exact iff_of_false nofun fun h => hx (h ▸ hl)

/-- A left bound is turned down if it is not finite. -/
theorem checkLower_eq_error_iff :
    checkLower x = .error fault ↔ x.isFinite = false ∧ .infiniteBound x = fault := by
  rw [checkLower]
  split <;> simp_all

/-- A right bound that is accepted is passed on as it is. -/
theorem checkUpper_eq_ok_iff {u : Upper lower} : checkUpper lower x = .ok u ↔ x = u.val := by
  obtain ⟨b, hb, hlower⟩ := u
  rw [checkUpper]
  split
  · cases lower with
    | none => simp
    | some a =>
      obtain ⟨hlt, hwidth⟩ := hlower a rfl
      dsimp only
      split_ifs with h h' <;> simp
      all_goals
        rintro rfl
        simp_all
  · rename_i hx
    exact iff_of_false nofun fun h => hx (h ▸ hb)

/-- A right bound is turned down if it is not finite or does not fit to the left one. -/
theorem checkUpper_eq_error_iff :
    checkUpper lower x = .error fault ↔
      (x.isFinite = false ∧ .infiniteBound x = fault) ∨
        (x.isFinite = true ∧ ∃ a ∈ lower, (¬ a < x ∧ .unordered x a = fault) ∨
          (a < x ∧ (x - a).isFinite = false ∧ .tooWide a x = fault)) := by
  rw [checkUpper]
  split
  · rename_i hx
    cases lower with
    | none => simp [hx]
    | some a =>
      by_cases hlt : a < x
      · by_cases hwidth : (x - a).isFinite = true <;> simp [hx, hlt, hwidth]
      · simp [hx, hlt]
  · rename_i hx
    simp [hx]

theorem checkCount_eq_ok_iff {c : Count} : checkCount n = .ok c ↔ n = c.val := by
  obtain ⟨m, hlow, hhigh⟩ := c
  rw [checkCount]
  split_ifs with htwo hmax
  · exact iff_of_false nofun fun h => by dsimp only at h; omega
  · exact iff_of_false nofun fun h => by dsimp only at h; omega
  · rw [Except.ok.injEq, Subtype.mk.injEq]
    dsimp only
    omega

/-- A number of points is turned down if it is too small or too large. -/
theorem checkCount_eq_error_iff :
    checkCount n = .error fault ↔
      (n < 2 ∧ .greaterThanEqual = fault) ∨ (maxSamples < n ∧ .lessThanEqual = fault) := by
  have hmax : maxSamples = 20000 := rfl
  rw [checkCount]
  split_ifs with htwo hlarge
  · have hsmall : ¬ maxSamples < n := by omega
    simp [htwo, hsmall]
  · simp [htwo, hlarge]
  · simp [htwo, hlarge]

/-! ## The three settings -/

/-- The left bound that is accepted. -/
def lowerOf (settings : List (String × Json)) : Except SettingFault Lower :=
  readBound (settings.lookup "x_min") >>= checkLower

/-- The right bound that is accepted. -/
def upperOf (settings : List (String × Json)) :
    Except SettingFault (Upper ((lowerOf settings).toOption.map Subtype.val)) :=
  readBound (settings.lookup "x_max") >>= checkUpper ((lowerOf settings).toOption.map Subtype.val)

/-- The number of points that is accepted. -/
def countOf (settings : List (String × Json)) : Except SettingFault Count :=
  readWhole (settings.lookup "samples") >>= checkCount

theorem lowerOf_eq_ok_iff {l : Lower} :
    lowerOf settings = .ok l ↔ readBound (settings.lookup "x_min") = .ok l.val := by
  simp only [lowerOf, bind_eq_ok_iff, checkLower_eq_ok_iff, exists_eq_right]

theorem upperOf_eq_ok_iff {u : Upper ((lowerOf settings).toOption.map Subtype.val)} :
    upperOf settings = .ok u ↔ readBound (settings.lookup "x_max") = .ok u.val := by
  simp only [upperOf, bind_eq_ok_iff, checkUpper_eq_ok_iff, exists_eq_right]

theorem countOf_eq_ok_iff {c : Count} :
    countOf settings = .ok c ↔ readWhole (settings.lookup "samples") = .ok c.val := by
  simp only [countOf, bind_eq_ok_iff, checkCount_eq_ok_iff, exists_eq_right]

/-- The right bound is compared with the left one if that is finite. -/
theorem mem_lowerOf_iff :
    a ∈ (lowerOf settings).toOption.map Subtype.val ↔ ReadsFinite settings "x_min" a := by
  cases h : lowerOf settings with
  | ok l =>
    have hread := lowerOf_eq_ok_iff.1 h
    have hfinite := l.property
    simp only [Except.toOption, Option.map_some, Option.mem_some_iff, ReadsFinite, hread,
      Except.ok.injEq]
    exact ⟨fun heq => ⟨heq, heq ▸ hfinite⟩, And.left⟩
  | error fault =>
    refine iff_of_false nofun fun ⟨hread, hfinite⟩ => ?_
    rw [(lowerOf_eq_ok_iff (l := ⟨a, hfinite⟩)).2 hread] at h
    cases h

/-- The left bound is turned down for what is wrong with it by itself. -/
theorem lowerOf_eq_error_iff :
    lowerOf settings = .error fault ↔ BoundFault settings "x_min" fault := by
  simp only [lowerOf, bind_eq_error_iff, checkLower_eq_error_iff]
  constructor
  · rintro (h | ⟨x, h, hx, rfl⟩)
    · exact .unread h
    · exact .infinite h hx
  · rintro (h | ⟨h, hx⟩)
    · exact .inl h
    · exact .inr ⟨_, h, hx, rfl⟩

/-- The right bound is turned down for what is wrong with it, beside the left one too. -/
theorem upperOf_eq_error_iff : upperOf settings = .error fault ↔ RightFault settings fault := by
  simp only [upperOf, bind_eq_error_iff, checkUpper_eq_error_iff, mem_lowerOf_iff]
  constructor
  · rintro (h | ⟨b, h, ⟨hb, rfl⟩ | ⟨hb, a, ha, ⟨hlt, rfl⟩ | ⟨hlt, hwidth, rfl⟩⟩⟩)
    · exact .bound (.unread h)
    · exact .bound (.infinite h hb)
    · exact .unordered ha ⟨h, hb⟩ hlt
    · exact .tooWide ha ⟨h, hb⟩ hlt hwidth
  · rintro ((h | ⟨h, hb⟩) | ⟨ha, ⟨h, hb⟩, hlt⟩ | ⟨ha, ⟨h, hb⟩, hlt, hwidth⟩)
    · exact .inl h
    · exact .inr ⟨_, h, .inl ⟨hb, rfl⟩⟩
    · exact .inr ⟨_, h, .inr ⟨hb, _, ha, .inl ⟨hlt, rfl⟩⟩⟩
    · exact .inr ⟨_, h, .inr ⟨hb, _, ha, .inr ⟨hlt, hwidth, rfl⟩⟩⟩

/-- The number of points is turned down for what is wrong with it. -/
theorem countOf_eq_error_iff : countOf settings = .error fault ↔ CountFault settings fault := by
  simp only [countOf, bind_eq_error_iff, checkCount_eq_error_iff]
  constructor
  · rintro (h | ⟨n, h, ⟨hn, rfl⟩ | ⟨hn, rfl⟩⟩)
    · exact .unread h
    · exact .tooFew h hn
    · exact .tooMany h hn
  · rintro (h | ⟨h, hn⟩ | ⟨h, hn⟩)
    · exact .inl h
    · exact .inr ⟨_, h, .inl ⟨hn, rfl⟩⟩
    · exact .inr ⟨_, h, .inr ⟨hn, rfl⟩⟩

/-! ## All settings -/

theorem mem_faultOf_iff {r : Except SettingFault α} :
    e ∈ faultOf name r ↔ e.setting = name ∧ r = .error e.fault := by
  obtain ⟨setting, fault⟩ := e
  cases r <;> simp [faultOf, eq_comm]

theorem map_faultOf_sublist (name : String) (r : Except SettingFault α) :
    ((faultOf name r).map SettingError.setting).Sublist [name] := by
  cases r <;> simp [faultOf]

theorem faultOf_eq_nil_iff {r : Except SettingFault α} : faultOf name r = [] ↔ ∃ a, r = .ok a := by
  cases r <;> simp [faultOf]

/-- The errors in the order of the settings. -/
def errorsIn (settings : List (String × Json)) : List SettingError :=
  faultOf "x_min" (lowerOf settings) ++ faultOf "x_max" (upperOf settings) ++
    faultOf "samples" (countOf settings)

/-- The errors are those that apply. -/
theorem mem_errorsIn_iff : e ∈ errorsIn settings ↔ e.Applies settings := by
  simp only [errorsIn, List.mem_append, mem_faultOf_iff, lowerOf_eq_error_iff,
    upperOf_eq_error_iff, countOf_eq_error_iff]
  constructor
  · obtain ⟨name, fault⟩ := e
    rintro ((⟨rfl, h⟩ | ⟨rfl, h⟩) | ⟨rfl, h⟩)
    · exact .xMin h
    · exact .xMax h
    · exact .samples h
  · rintro (h | h | h)
    · exact .inl (.inl ⟨rfl, h⟩)
    · exact .inl (.inr ⟨rfl, h⟩)
    · exact .inr ⟨rfl, h⟩

/-- No setting has two errors, and they stand in order. -/
theorem map_errorsIn_sublist (settings : List (String × Json)) :
    ((errorsIn settings).map SettingError.setting).Sublist ["x_min", "x_max", "samples"] := by
  rw [errorsIn, List.map_append, List.map_append]
  exact ((map_faultOf_sublist _ _).append (map_faultOf_sublist _ _)).append
    (map_faultOf_sublist _ _)

/-- None of the settings of a grid is at fault. -/
theorem IsReadFrom.errorsIn_eq_nil (h : g.IsReadFrom settings) : errorsIn settings = [] := by
  have hlower : lowerOf settings = .ok ⟨g.xMin, g.xMin_finite⟩ := lowerOf_eq_ok_iff.2 h.xMin
  have hcompared : ∀ a ∈ (lowerOf settings).toOption.map Subtype.val,
      a < g.xMax ∧ (g.xMax - a).isFinite = true := by
    rw [hlower]
    rintro a ⟨⟩
    exact ⟨g.xMin_lt_xMax, g.width_finite⟩
  have hupper : upperOf settings = .ok ⟨g.xMax, g.xMax_finite, hcompared⟩ :=
    upperOf_eq_ok_iff.2 h.xMax
  have hcount : countOf settings = .ok ⟨g.samples, g.two_le_samples, g.samples_le⟩ :=
    countOf_eq_ok_iff.2 h.samples
  rw [errorsIn, faultOf_eq_nil_iff.2 ⟨_, hlower⟩, faultOf_eq_nil_iff.2 ⟨_, hupper⟩,
    faultOf_eq_nil_iff.2 ⟨_, hcount⟩]
  rfl

/-- A grid is determined by the numbers that are read. -/
theorem IsReadFrom.eq {g' : Grid} (h : g.IsReadFrom settings) (h' : g'.IsReadFrom settings) :
    g = g' := by
  have hmin : g.xMin = g'.xMin := Except.ok.inj (h.xMin.symm.trans h'.xMin)
  have hmax : g.xMax = g'.xMax := Except.ok.inj (h.xMax.symm.trans h'.xMax)
  have hsamples : g.samples = g'.samples :=
    Int.ofNat.inj (Except.ok.inj (h.samples.symm.trans h'.samples))
  cases g
  cases g'
  simp_all

/-- There is a grid, or there are errors. -/
theorem ofSettings_cases (settings : List (String × Json)) :
    (∃ g : Grid, ofSettings settings = .ok g ∧ g.IsReadFrom settings) ∨
      (ofSettings settings = .error (errorsIn settings) ∧ errorsIn settings ≠ []) := by
  rw [ofSettings]
  split
  · rename_i a b n ha hb hn
    rw [ha] at hb
    refine .inl ⟨_, rfl, lowerOf_eq_ok_iff.1 ha, ?_, countOf_eq_ok_iff.1 hn⟩
    obtain ⟨x, hx, hb⟩ := bind_eq_ok_iff.1 (eq_of_heq hb)
    rw [hx, checkUpper_eq_ok_iff.1 hb]
  · rename_i hnot
    refine .inr ⟨rfl, fun hnil => ?_⟩
    simp only [errorsIn, List.append_eq_nil_iff, faultOf_eq_nil_iff] at hnil
    obtain ⟨⟨⟨a, ha⟩, b, hb⟩, n, hn⟩ := hnil
    -- The type of the right bound depends on the left one.
    have hupper : ∃ u : Upper ((Except.ok a : Except SettingFault Lower).toOption.map Subtype.val),
        upperOf settings ≍ (Except.ok u : Except SettingFault _) := by
      rw [← ha]
      exact ⟨b, heq_of_eq hb⟩
    obtain ⟨u, hu⟩ := hupper
    exact hnot a u n ha hu hn

/-- Settings give a grid if and only if each of the three is read as its number. -/
theorem ofSettings_eq_ok_iff : ofSettings settings = .ok g ↔ g.IsReadFrom settings := by
  rcases ofSettings_cases settings with ⟨g', hok, hread⟩ | ⟨herror, hne⟩
  · rw [hok, Except.ok.injEq]
    exact ⟨fun heq => heq ▸ hread, hread.eq⟩
  · rw [herror]
    exact iff_of_false nofun fun h => hne h.errorsIn_eq_nil

/-- Settings give a grid if and only if none of the three is at fault. -/
theorem exists_ofSettings_iff :
    (∃ g, ofSettings settings = .ok g) ↔ ∀ e : SettingError, ¬ e.Applies settings := by
  simp only [← mem_errorsIn_iff, ← List.eq_nil_iff_forall_not_mem]
  rcases ofSettings_cases settings with ⟨g, hok, hread⟩ | ⟨herror, hne⟩
  · exact iff_of_true ⟨g, hok⟩ hread.errorsIn_eq_nil
  · refine iff_of_false (fun ⟨g, hok⟩ => ?_) hne
    rw [herror] at hok
    cases hok

/-- Otherwise there is exactly one error for each setting at fault. It names the setting and says
what is wrong; the errors stand in the order of the settings. -/
theorem ofSettings_error (h : ofSettings settings = .error errors) :
    errors ≠ [] ∧ (errors.map SettingError.setting).Sublist ["x_min", "x_max", "samples"] ∧
      ∀ e, e ∈ errors ↔ e.Applies settings := by
  rcases ofSettings_cases settings with ⟨g, hok, -⟩ | ⟨herror, hne⟩
  · rw [hok] at h
    cases h
  · rw [herror] at h
    cases h
    exact ⟨hne, map_errorsIn_sublist settings, fun _ => mem_errorsIn_iff⟩

end Grid

end Plotter
