import Plotter.Proofs.Scanning

/-!
# Runs of digits and points

The scan takes in digits and points as far as they go, and only then asks whether they are a number.
They are one if and only if there is a digit among them and at most one point. The value is that of
the digits as one whole number, divided by ten for every digit behind the point.
-/

namespace Plotter

open Numeral (isDigit ofDigits)
open Token (isNumeric number?)

/-- The run is a number: digits with at most one point among them. -/
structure IsNumber (run : List Char) : Prop where
  numeric : ∀ c ∈ run, isNumeric c = true
  digit : ∃ c ∈ run, isDigit c = true
  point : run.count '.' ≤ 1

/-- The decimal value of the digits of a run, the last ones of which are behind the point. -/
def Numeral.ofRun (run : List Char) : Numeral :=
  ⟨ofDigits (run.filter isDigit), -((run.dropWhile (· ≠ '.')).tail.length : Int)⟩

variable {c : Char} {run whole fraction rest : List Char}

/-! ## Points -/

theorem isNumeric_iff : isNumeric c = true ↔ isDigit c = true ∨ c = '.' := by
  simp [isNumeric]

theorem ne_point_of_isDigit (h : isDigit c = true) : c ≠ '.' := by
  rintro rfl
  cases h

/-- Before the first point of a run there are digits only. -/
theorem digits_or_point (h : ∀ c ∈ run, isNumeric c = true) :
    (∀ c ∈ run, isDigit c = true) ∨
      ∃ whole rest, run = whole ++ '.' :: rest ∧ ∀ c ∈ whole, isDigit c = true := by
  induction run with
  | nil => exact .inl (by simp)
  | cons c cs ih =>
    obtain ⟨hc, hcs⟩ := List.forall_mem_cons.1 h
    rcases isNumeric_iff.1 hc with hdigit | rfl
    · rcases ih hcs with hdigits | ⟨whole, rest, rfl, hwhole⟩
      · exact .inl (List.forall_mem_cons.2 ⟨hdigit, hdigits⟩)
      · exact .inr ⟨c :: whole, rest, rfl, List.forall_mem_cons.2 ⟨hdigit, hwhole⟩⟩
    · exact .inr ⟨[], cs, rfl, by simp⟩

theorem count_point_of_digits (h : ∀ c ∈ run, isDigit c = true) : run.count '.' = 0 :=
  List.count_eq_zero.2 fun hmem => ne_point_of_isDigit (h _ hmem) rfl

/-- A run without a point consists of digits. -/
theorem digits_of_count_point (h : ∀ c ∈ run, isNumeric c = true) (hcount : run.count '.' = 0) :
    ∀ c ∈ run, isDigit c = true := by
  intro c hc
  rcases isNumeric_iff.1 (h c hc) with hdigit | rfl
  · exact hdigit
  · exact absurd hc (List.count_eq_zero.1 hcount)

theorem point_ends_digits : ∀ c ∈ ('.' :: rest).head?, isDigit c = false := by
  simp [isDigit]

/-! ## Reading a run -/

/-- A run of digits is read as a whole number. -/
theorem ofChars?_digits (h : ∀ c ∈ run, isDigit c = true) (hne : run ≠ []) :
    Numeral.ofChars? run = some ⟨ofDigits run, 0⟩ := by
  have htake := List.takeWhile_eq_self_iff.2 h
  have hdrop := List.dropWhile_eq_nil_iff.2 h
  simp [Numeral.ofChars?, htake, hdrop, hne, Numeral.exponent?]

/-- A run with a point is read as the digits on both sides of it. -/
theorem ofChars?_point (h : ∀ c ∈ whole, isDigit c = true) :
    Numeral.ofChars? (whole ++ '.' :: rest) =
      if whole ++ rest.takeWhile isDigit = [] then none
      else (Numeral.exponent? (rest.dropWhile isDigit)).map fun e =>
        ⟨ofDigits (whole ++ rest.takeWhile isDigit), e - (rest.takeWhile isDigit).length⟩ := by
  obtain ⟨htake, hdrop⟩ := takeWhile_append_of_head h point_ends_digits
  rw [Numeral.ofChars?, htake, hdrop]
  rfl

theorem ofRun_digits (h : ∀ c ∈ run, isDigit c = true) : Numeral.ofRun run = ⟨ofDigits run, 0⟩ := by
  have hdrop : run.dropWhile (· ≠ '.') = [] := by
    rw [List.dropWhile_eq_nil_iff]
    intro c hc
    simpa using ne_point_of_isDigit (h c hc)
  rw [Numeral.ofRun, hdrop, List.filter_eq_self.2 h]
  rfl

/-- The exponent is the number of digits behind the point, negated. -/
theorem ofRun_point (hwhole : ∀ c ∈ whole, isDigit c = true)
    (hfraction : ∀ c ∈ fraction, isDigit c = true) :
    Numeral.ofRun (whole ++ '.' :: fraction) =
      ⟨ofDigits (whole ++ fraction), -(fraction.length : Int)⟩ := by
  have hne : ∀ c ∈ whole, decide (c ≠ '.') = true := by
    intro c hc
    simpa using ne_point_of_isDigit (hwhole c hc)
  have hpoint : ∀ c ∈ ('.' :: fraction).head?, decide (c ≠ '.') = false := by simp
  have hdrop := (takeWhile_append_of_head hne hpoint).2
  have hfilter : (whole ++ '.' :: fraction).filter isDigit = whole ++ fraction := by
    rw [List.filter_append, List.filter_cons_of_neg (by decide), List.filter_eq_self.2 hwhole,
      List.filter_eq_self.2 hfraction]
  rw [Numeral.ofRun, hdrop, hfilter]
  rfl

/-- A run that is a number is read as the value of its digits. -/
theorem number?_of_isNumber (h : IsNumber run) :
    number? run = some (Numeral.ofRun run).toFloat := by
  have hread : Numeral.ofChars? run = some (Numeral.ofRun run) := by
    obtain ⟨c, hc, hdigit⟩ := h.digit
    rcases digits_or_point h.numeric with hdigits | ⟨whole, fraction, rfl, hwhole⟩
    · rw [ofChars?_digits hdigits (List.ne_nil_of_mem hc), ofRun_digits hdigits]
    · have hpoint := h.point
      rw [List.count_append, List.count_cons_self] at hpoint
      have hfraction : ∀ c ∈ fraction, isDigit c = true :=
        digits_of_count_point (fun c hc => h.numeric c (by simp [hc])) (by omega)
      have hne : whole ++ fraction ≠ [] := by
        rintro hnil
        obtain ⟨rfl, rfl⟩ := List.append_eq_nil_iff.1 hnil
        obtain rfl : c = '.' := by simpa using hc
        cases hdigit
      rw [ofChars?_point hwhole, List.takeWhile_eq_self_iff.2 hfraction,
        List.dropWhile_eq_nil_iff.2 hfraction, if_neg hne, ofRun_point hwhole hfraction]
      simp [Numeral.exponent?]
  rw [number?, hread]
  rfl

/-- A run without a digit, or with a second point, is not read. -/
theorem isNumber_of_number? {value : Float} (h : ∀ c ∈ run, isNumeric c = true)
    (hvalue : number? run = some value) : IsNumber run := by
  obtain ⟨n, hread, -⟩ := Option.map_eq_some_iff.1 hvalue
  rcases digits_or_point h with hdigits | ⟨whole, rest, rfl, hwhole⟩
  · have hne : run ≠ [] := by
      rintro rfl
      cases hread
    obtain ⟨c, hc⟩ := List.exists_mem_of_ne_nil run hne
    exact ⟨h, ⟨c, hc, hdigits c hc⟩, by rw [count_point_of_digits hdigits]; omega⟩
  · have hrest : ∀ c ∈ rest, isNumeric c = true := fun c hc => h c (by simp [hc])
    rw [ofChars?_point hwhole] at hread
    split_ifs at hread with hnil
    rcases digits_or_point hrest with hdigits | ⟨fraction, tail, rfl, hfraction⟩
    · rw [List.takeWhile_eq_self_iff.2 hdigits] at hnil
      refine ⟨h, ?_, ?_⟩
      · obtain ⟨c, hc⟩ := List.exists_mem_of_ne_nil _ hnil
        rcases List.mem_append.1 hc with hc | hc
        · exact ⟨c, by simp [hc], hwhole c hc⟩
        · exact ⟨c, by simp [hc], hdigits c hc⟩
      · rw [List.count_append, List.count_cons_self, count_point_of_digits hwhole,
          count_point_of_digits hdigits]
    · -- What is left at the second point is no power of ten.
      obtain ⟨-, hdrop⟩ := takeWhile_append_of_head hfraction point_ends_digits
      rw [hdrop] at hread
      cases hread

end Plotter
