import Mathlib
import Plotter.Proofs.Export
import Plotter.Proofs.LexicalFaults

/-!
# Numbers in exported expressions

JSON has no infinity. A run of digits may be of any length, though, and becomes the double nearest
to its value, which is infinity from half a unit above the greatest double on. The numbers of a
program are those of the runs in its source. So an expression can be exported as JSON if and only if
no run in its source has a value as large as that.
-/

namespace Plotter

open Double

/-- The value can be written as JSON, which has finite numbers only. -/
inductive Json.IsStandard : Json → Prop
  | null : IsStandard .null
  | bool {b : Bool} : IsStandard (.bool b)
  | int {i : Int} : IsStandard (.int i)
  | real {x : Float} : x.isFinite = true → IsStandard (.real x)
  | string {s : String} : IsStandard (.string s)
  | array {items : List Json} : (∀ j ∈ items, IsStandard j) → IsStandard (.array items)
  | object {ms : List (String × Json)} : (∀ m ∈ ms, IsStandard m.2) → IsStandard (.object ms)

/-- The run of digits and points stands in the text and is not part of a longer one. -/
def HasRun (cs run : List Char) : Prop := ∃ p, RunAt cs p run

/-- Every run of digits and points is less than half a unit above the greatest double. -/
def HasFiniteRuns (cs : List Char) : Prop :=
  ∀ run, HasRun cs run → (Numeral.ofRun run).value < overflowBound

variable {c : Char} {cs ds run part : List Char} {source : String} {x : Float} {t : Token}
  {ts : List Token} {e : Expression}

/-! ## Runs -/

/-- The runs of two texts with a seam between them are those of either. -/
theorem hasRun_append (hseam : Seam cs ds) :
    HasRun (cs ++ ds) run ↔ HasRun cs run ∨ HasRun ds run := by
  constructor
  · rintro ⟨p, hrun⟩
    rcases Nat.lt_or_ge p cs.length with hp | hp
    · exact .inl ⟨p, (runAt_append_left hseam hp).1 hrun⟩
    · obtain ⟨q, rfl⟩ := Nat.exists_eq_add_of_le hp
      exact .inr ⟨q, (runAt_append_right hseam).1 hrun⟩
  · rintro (⟨p, hrun⟩ | ⟨p, hrun⟩)
    · obtain ⟨c, -, hc, -⟩ := hrun.exists_getElem?
      have hp : p < cs.length := (List.getElem?_eq_some_iff.1 hc).1
      exact ⟨p, (runAt_append_left hseam hp).2 hrun⟩
    · exact ⟨cs.length + p, (runAt_append_right hseam).2 hrun⟩

theorem not_hasRun_of_not_numeric (h : ∀ c ∈ cs, Token.isNumeric c = false) :
    ¬ HasRun cs run := by
  rintro ⟨p, hrun⟩
  obtain ⟨c, -, hc, hnumeric⟩ := hrun.exists_getElem?
  rw [h c (List.mem_of_getElem? hc)] at hnumeric
  cases hnumeric

theorem hasRun_self_iff (hne : run ≠ []) (hrun : ∀ c ∈ run, Token.isNumeric c = true) :
    HasRun run part ↔ part = run := by
  constructor
  · rintro ⟨p, hpart⟩
    exact hpart.eq_self hrun
  · rintro rfl
    exact ⟨0, [], [], by simp, rfl, hne, hrun, by simp, by simp⟩

/-- Behind what is no part of a number the runs are those of the rest. -/
theorem hasRun_append_of_not_numeric (h : ∀ c ∈ cs, Token.isNumeric c = false) :
    HasRun (cs ++ ds) run ↔ HasRun ds run := by
  rw [hasRun_append (seam_of_forall h), or_iff_right (not_hasRun_of_not_numeric h)]

/-- The numbers among the tokens are those of the runs. -/
theorem Scans.number_mem_iff (h : Scans cs ts) :
    .number x ∈ ts ↔ ∃ run, HasRun cs run ∧ x = (Numeral.ofRun run).toFloat := by
  induction h with
  | nil => simp [not_hasRun_of_not_numeric]
  | @space cs ts _ ih =>
    have hspace : ∀ c ∈ [' '], Token.isNumeric c = false := List.forall_mem_singleton.2 rfl
    have hruns (run : List Char) : HasRun (' ' :: cs) run ↔ HasRun cs run :=
      hasRun_append_of_not_numeric hspace
    simp only [ih, hruns]
  | @number run rest ts value hne hrun hrest hvalue _ ih =>
    rw [number?_of_isNumber (isNumber_of_number? hrun hvalue), Option.some.injEq] at hvalue
    simp only [List.mem_cons, Token.number.injEq, ih, hasRun_append (seam_of_head? hrest),
      hasRun_self_iff hne hrun, or_and_right, exists_or, exists_eq_left, hvalue]
  | @name word rest ts _ hword _ _ ih =>
    have hname : .number x ≠ Token.ofName (String.ofList word) := by
      rw [Token.ofName]
      split_ifs <;> simp
    have hruns (run : List Char) : HasRun (word ++ rest) run ↔ HasRun rest run :=
      hasRun_append_of_not_numeric fun c hc => isNumeric_of_isAlpha (hword c hc)
    simp only [List.mem_cons, hname, false_or, ih, hruns]
  | @symbol c rest t ts ht _ ih =>
    have hsymbol : .number x ≠ t := by
      rintro rfl
      rw [Token.ofSymbol?] at ht
      split_ifs at ht <;> cases ht
    have hnumeric : ∀ d ∈ [c], Token.isNumeric d = false :=
      List.forall_mem_singleton.2 (isNumeric_of_ofSymbol? ht)
    have hruns (run : List Char) : HasRun (c :: rest) run ↔ HasRun rest run :=
      hasRun_append_of_not_numeric hnumeric
    simp only [List.mem_cons, hsymbol, false_or, ih, hruns]

/-! ## Programs -/

namespace Expression

theorem number_mem_iff_of_compile (h : compile source = .ok e) :
    .number x ∈ e.program ↔
      ∃ run, HasRun source.toList run ∧ x = (Numeral.ofRun run).toFloat := by
  obtain ⟨ts, hscan, hprogram, -⟩ := compile_eq_ok_iff.1 h
  have hoperand (us : List Token) : .number x ∈ operands us ↔ .number x ∈ us := by
    rw [operands, List.mem_filter]
    exact and_iff_left rfl
  rw [← (scan_eq_ok_iff.1 hscan).number_mem_iff, ← hoperand e.program, ← hoperand ts,
    operands_of_programOf hprogram]

/-- Digits alone are a source. -/
theorem compile_of_digits (hne : run ≠ []) (h : ∀ c ∈ run, Numeral.isDigit c = true) :
    compile (String.ofList run) =
      .ok ⟨String.ofList run, [.number (Numeral.ofRun run).toFloat]⟩ := by
  obtain ⟨c, hc⟩ := List.exists_mem_of_ne_nil run hne
  have hnumber : IsNumber run :=
    ⟨fun c hc => isNumeric_iff.2 (.inl (h c hc)), ⟨c, hc, h c hc⟩,
      (count_point_of_digits h).trans_le zero_le_one⟩
  have hscans : Scans (run ++ []) [.number (Numeral.ofRun run).toFloat] :=
    .number hne hnumber.numeric (by simp) (number?_of_isNumber hnumber) .nil
  rw [List.append_nil] at hscans
  refine compile_eq_ok_iff.2 ⟨[.number (Numeral.ofRun run).toFloat], scan_eq_ok_iff.2 ?_, rfl, rfl⟩
  rwa [String.toList_ofList]

/-- The numbers of a compiled program are finite exactly if those of its source are. -/
theorem forall_isFinite_iff_of_compile (h : compile source = .ok e) :
    (∀ x, .number x ∈ e.program → x.isFinite = true) ↔ HasFiniteRuns source.toList := by
  simp only [number_mem_iff_of_compile h, HasFiniteRuns, ← Numeral.isFinite_toFloat_iff]
  constructor
  · intro hfinite run hrun
    exact hfinite _ ⟨run, hrun, rfl⟩
  · rintro hfinite x ⟨run, hrun, rfl⟩
    exact hfinite run hrun

end Expression

/-! ## Records -/

namespace Json

@[simp]
theorem isStandard_string (s : String) : (Json.string s).IsStandard := .string

@[simp]
theorem isStandard_real_iff : (Json.real x).IsStandard ↔ x.isFinite = true :=
  ⟨fun h => by cases h; assumption, .real⟩

@[simp]
theorem isStandard_array_iff {items : List Json} :
    (Json.array items).IsStandard ↔ ∀ j ∈ items, j.IsStandard :=
  ⟨fun h => by cases h; assumption, .array⟩

@[simp]
theorem isStandard_object_iff {ms : List (String × Json)} :
    (Json.object ms).IsStandard ↔ ∀ m ∈ ms, m.2.IsStandard :=
  ⟨fun h => by cases h; assumption, .object⟩

end Json

theorem Token.isStandard_toJson_iff :
    t.toJson.IsStandard ↔ ∀ x, t = .number x → x.isFinite = true := by
  cases t <;> simp [Token.toJson]

theorem Expression.isStandard_toJson_iff :
    e.toJson.IsStandard ↔ ∀ x, .number x ∈ e.program → x.isFinite = true := by
  have hrecord : e.toJson.IsStandard ↔ ∀ t ∈ e.program, t.toJson.IsStandard := by
    simp [Expression.toJson]
  rw [hrecord]
  simp only [Token.isStandard_toJson_iff]
  exact ⟨fun h x hx => h _ hx x rfl, fun h t ht x hx => h x (hx ▸ ht)⟩

open Expression

/-- The numbers of a compiled program are those of the runs in the source, and none is no number at
all. They are all finite, and the expression can be exported as JSON, if and only if every run is
less than half a unit above the greatest double. -/
theorem exported_isStandard_iff (h : compile source = .ok e) :
    (∀ x, .number x ∈ e.program ↔
      ∃ run, HasRun source.toList run ∧ x = (Numeral.ofRun run).toFloat) ∧
      (∀ x, .number x ∈ e.program → x.isNaN = false) ∧
      ((∀ x, .number x ∈ e.program → x.isFinite = true) ↔ HasFiniteRuns source.toList) ∧
      (e.toJson.IsStandard ↔ HasFiniteRuns source.toList) :=
  ⟨fun _ => number_mem_iff_of_compile h, fun _ => isNaN_of_compile h,
    forall_isFinite_iff_of_compile h,
    Expression.isStandard_toJson_iff.trans (forall_isFinite_iff_of_compile h)⟩

/-- The digits of the greatest whole number that is read as a finite double. -/
def greatestDigits : List Char := Nat.toDigits 10 (overflowBound - 1)

/-- The theorem for these 309 digits as the source. -/
theorem exported_isStandard_greatest :
    ∃ e, compile (String.ofList greatestDigits) = .ok e ∧ e.toJson.IsStandard ∧
      HasFiniteRuns (String.ofList greatestDigits).toList := by
  have hdigits : greatestDigits.all Numeral.isDigit = true := by decide +kernel
  have hne : greatestDigits ≠ [] := by decide +kernel
  have hfinite : (Numeral.ofRun greatestDigits).toFloat.isFinite = true := by decide +kernel
  have hcompile := compile_of_digits hne (List.all_eq_true.1 hdigits)
  obtain ⟨-, -, hruns, hstandard⟩ := exported_isStandard_iff hcompile
  have hrun : HasFiniteRuns (String.ofList greatestDigits).toList := by
    refine hruns.1 fun x hx => ?_
    rw [Token.number.inj (List.mem_singleton.1 hx)]
    exact hfinite
  exact ⟨_, hcompile, hstandard.2 hrun, hrun⟩

/-- A one with 309 zeros behind it. -/
def hugeDigits : List Char := '1' :: List.replicate 309 '0'

/-- As a source they are infinity in the program and in the record. -/
theorem exported_hugeDigits :
    compile (String.ofList hugeDigits) = .ok ⟨String.ofList hugeDigits, [.number infinity]⟩ ∧
      infinity.isFinite = false ∧
      ¬ (toJson ⟨String.ofList hugeDigits, [.number infinity]⟩).IsStandard := by
  have hfinite : infinity.isFinite = false := by decide +kernel
  have hdigits : hugeDigits.all Numeral.isDigit = true := by decide +kernel
  have hinfinity : (Numeral.ofRun hugeDigits).toFloat = infinity := by decide +kernel
  have hne : hugeDigits ≠ [] := List.cons_ne_nil _ _
  have hcompile := compile_of_digits hne (List.all_eq_true.1 hdigits)
  rw [hinfinity] at hcompile
  refine ⟨hcompile, hfinite, fun hstandard => ?_⟩
  have htrue := Expression.isStandard_toJson_iff.1 hstandard infinity List.mem_cons_self
  rw [hfinite] at htrue
  cases htrue

end Plotter
