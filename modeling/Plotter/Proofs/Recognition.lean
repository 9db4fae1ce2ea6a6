import Plotter.Proofs.Beginnings
import Plotter.Proofs.Compilation
import Plotter.Proofs.Conservation
import Plotter.Proofs.Neighbours
import Plotter.Proofs.Vocabulary

/-!
# What compiles is a formula

The compiler does not look for operands and operators to alternate; it only finds out, after the
reordering, whether exactly one value is left. As long as no number directly follows a number or a
closing parenthesis this is enough: two operands side by side are then always multiplied, so every
operand but one comes with an operator, and a misplaced operator or an empty pair of parentheses
leaves an operand too few, which nothing can make up for. A number that does follow directly makes
up for it, and the program is sound although the tokens are no formula.
-/

namespace Plotter

open Infix

variable {initial : Bool} {n : Nat} {last t : Token} {us ts : List Token}

/-! ## Operands and operators of tight lists -/

theorem Tight.tail (h : Tight (t :: ts)) : Tight ts := List.IsChain.tail h

theorem adjoins_of_tight (hends : endsOperand last = true) (hstarts : startsOperand t = true)
    (h : Tight (last :: t :: ts)) : Adjoins last t := by
  have hloose : loose last t = false := (List.isChain_cons_cons.1 h).1
  cases t with
  | var _ | function _ | leftParen => trivial
  | operator _ | rightParen => cases hstarts
  | number value =>
    cases last with
    | var name => exact ⟨name, rfl⟩
    | number _ | rightParen => cases hloose
    | function _ | operator _ | leftParen => cases hends

/-- After an operand a product is meant wherever another operand begins. -/
theorem prepareAfter_of_tight (hends : endsOperand last = true) (hstarts : startsOperand t = true)
    (h : Tight (last :: t :: ts)) :
    prepareAfter last (t :: ts) = Token.times :: prepare true (t :: ts) :=
  prepareAfter_of_impliesProduct (impliesProduct_of_adjoins hends (adjoins_of_tight hends hstarts h))

/-- No tight list has two operands more than operators, and after an operand none has even one. -/
theorem surplus_le_of_tight (h : Tight ts) :
    (∀ initial, surplus (prepare initial ts) ≤ 1) ∧
      ∀ last, endsOperand last = true → Tight (last :: ts) → surplus (prepareAfter last ts) ≤ 0 := by
  -- Both bounds at once: an operand leads from the first to the second, an operator back.
  induction ts with
  | nil => simp
  | cons t ts ih =>
    obtain ⟨ihprepare, ihafter⟩ := ih h.tail
    have hprepare (initial : Bool) : surplus (prepare initial (t :: ts)) ≤ 1 := by
      cases t with
      | number _ | var _ | rightParen =>
        have hrest := ihafter _ rfl h
        rw [prepare_operand rfl, surplus_cons, Token.weight]
        omega
      | function _ | leftParen =>
        simpa [Token.weight] using ihprepare _
      | operator symbol =>
        by_cases hminus : initial = false ∨ symbol ≠ "-"
        · have hrest := ihprepare true
          rw [prepare_operator hminus, surplus_cons, Token.weight]
          omega
        · obtain ⟨rfl, rfl⟩ : initial = true ∧ symbol = "-" := by simpa using hminus
          rw [← Token.minus, prepare_minus, Token.negation, surplus_cons, Token.weight]
          simpa using ihprepare false
    refine ⟨hprepare, ?_⟩
    intro last hends htight
    by_cases hstarts : startsOperand t = true
    · have hrest := hprepare true
      rw [prepareAfter_of_tight hends hstarts htight, Token.times, surplus_cons, Token.weight]
      omega
    · cases t with
      | number _ | var _ | function _ | leftParen => exact absurd rfl hstarts
      | operator symbol =>
        have hrest := ihprepare true
        rw [prepareAfter_operator, surplus_cons, Token.weight]
        omega
      | rightParen =>
        have hrest := ihafter _ rfl h
        rw [prepareAfter_rightParen, surplus_cons, Token.weight]
        omega

/-! ## Completing a beginning -/

/-- The tokens `ts` complete every beginning of a formula to which they fit, if what the two passes
make of them closes the open parentheses and has as many operands more than operators as are
wanting. -/
structure Completes (ts : List Token) : Prop where
  /-- Where a factor is awaited, a minus sign in front negates. -/
  factor : ∀ n us, Awaits .factor n us → Closes n (prepare true ts) →
    surplus (prepare true ts) = 1 → ∃ e, Derives .expr (us ++ ts) e
  /-- Where only an atom is awaited, no minus sign may be in front. -/
  atom : ∀ n us, Awaits .atom n us → Closes n (prepare false ts) →
    surplus (prepare false ts) = 1 → ∃ e, Derives .expr (us ++ ts) e
  /-- After an operand, operands and operators are to be equally many. -/
  rest : ∀ n us last, Complete n us → us.getLast? = some last → endsOperand last = true →
    Tight (last :: ts) → Closes n (prepareAfter last ts) → surplus (prepareAfter last ts) = 0 →
    ∃ e, Derives .expr (us ++ ts) e

namespace Completes

theorem nil : Completes [] := by
  refine ⟨?_, ?_, ?_⟩
  · intro n us _ _ hsurplus
    cases hsurplus
  · intro n us _ _ hsurplus
    cases hsurplus
  · intro n us last hcomplete _ _ _ hcloses _
    obtain rfl : n = 0 := hcloses
    rw [List.append_nil]
    exact hcomplete

theorem cons_of_takes (ih : Completes ts) (htypable : t.isTypable = true) (htight : Tight (t :: ts))
    (hstarts : startsOperand t = true) (h : Takes t n us)
    (hcloses : Closes n (prepare true (t :: ts))) (hsurplus : surplus (prepare true (t :: ts)) = 1) :
    ∃ e, Derives .expr (us ++ t :: ts) e := by
  rw [List.append_cons]
  cases t with
  | operator _ | rightParen => cases hstarts
  | number value =>
    rw [prepare_operand rfl] at hcloses hsurplus
    refine ih.rest n _ (.number value) h.number (by simp) rfl htight hcloses ?_
    rw [surplus_cons, Token.weight] at hsurplus
    omega
  | var name =>
    rw [prepare_operand rfl] at hcloses hsurplus
    refine ih.rest n _ (.var name) h.var (by simp) rfl htight hcloses ?_
    rw [surplus_cons, Token.weight] at hsurplus
    omega
  | function name =>
    obtain ⟨f, hf, rfl⟩ := exists_of_isUserFunction htypable
    rw [prepare_function] at hcloses hsurplus
    refine ih.atom n _ (h.function hf) hcloses ?_
    simpa [Token.weight] using hsurplus
  | leftParen =>
    rw [prepare_leftParen] at hcloses hsurplus
    refine ih.factor (n + 1) _ h.leftParen hcloses ?_
    simpa [Token.weight] using hsurplus

/-- An operator or a closing parenthesis leaves an operand too few where an operand is to begin. -/
theorem surplus_ne_one (htight : Tight (t :: ts)) (hstarts : startsOperand t = false)
    (hminus : initial = false ∨ t ≠ Token.minus) : surplus (prepare initial (t :: ts)) ≠ 1 := by
  obtain ⟨hprepare, hafter⟩ := surplus_le_of_tight htight.tail
  cases t with
  | number _ | var _ | function _ | leftParen => cases hstarts
  | operator symbol =>
    have hrest := hprepare true
    rw [prepare_operator (by simpa [Token.minus] using hminus), surplus_cons, Token.weight]
    omega
  | rightParen =>
    have hrest := hafter _ rfl htight
    rw [prepare_operand rfl, surplus_cons, Token.weight]
    omega

theorem cons (ih : Completes ts) (htypable : t.isTypable = true) (htight : Tight (t :: ts)) :
    Completes (t :: ts) := by
  refine ⟨?_, ?_, ?_⟩
  · -- a factor is awaited
    intro n us h hcloses hsurplus
    by_cases hstarts : startsOperand t = true
    · exact ih.cons_of_takes htypable htight hstarts h.atom_of_factor.takes hcloses hsurplus
    · by_cases hminus : t = Token.minus
      · rw [hminus, prepare_minus, Token.negation] at hcloses hsurplus
        rw [hminus, List.append_cons]
        refine ih.atom n _ h.minus hcloses ?_
        simpa [Token.weight] using hsurplus
      · exact absurd hsurplus (surplus_ne_one htight (by simpa using hstarts) (.inr hminus))
  · -- an atom is awaited
    intro n us h hcloses hsurplus
    by_cases hstarts : startsOperand t = true
    · rw [prepare_of_startsOperand rfl hstarts] at hcloses hsurplus
      exact ih.cons_of_takes htypable htight hstarts h.takes hcloses hsurplus
    · exact absurd hsurplus (surplus_ne_one htight (by simpa using hstarts) (.inl rfl))
  · -- an operand is complete
    intro n us last h hlast hends htight' hcloses hsurplus
    by_cases hstarts : startsOperand t = true
    · rw [prepareAfter_of_tight hends hstarts htight', Token.times] at hcloses hsurplus
      have htakes := h.takes hlast (adjoins_of_tight hends hstarts htight')
      refine ih.cons_of_takes htypable htight hstarts htakes hcloses ?_
      rw [surplus_cons, Token.weight] at hsurplus
      omega
    · rw [List.append_cons]
      cases t with
      | number _ | var _ | function _ | leftParen => exact absurd rfl hstarts
      | operator symbol =>
        obtain ⟨op, hop⟩ := Option.isSome_iff_exists.1 htypable
        obtain rfl := BinaryOp.symbol_of_ofSymbol? hop
        rw [prepareAfter_operator] at hcloses hsurplus
        refine ih.factor n _ (h.operator op) hcloses ?_
        rw [surplus_cons, Token.weight] at hsurplus
        omega
      | rightParen =>
        rw [prepareAfter_rightParen] at hcloses hsurplus
        obtain ⟨m, rfl, hcloses⟩ := hcloses
        refine ih.rest m _ .rightParen h.close (by simp) rfl htight hcloses ?_
        simpa [Token.weight] using hsurplus

end Completes

theorem completes_of_tight (htypable : ∀ t ∈ ts, t.isTypable = true) (h : Tight ts) :
    Completes ts := by
  induction ts with
  | nil => exact .nil
  | cons t ts ih =>
    obtain ⟨ht, hts⟩ := List.forall_mem_cons.1 htypable
    exact (ih hts h.tail).cons ht h

/-! ## Formulas and sources that compile -/

theorem exists_derives_of_programOf {program : List Token}
    (htypable : ∀ t ∈ ts, t.isTypable = true) (htight : Tight ts)
    (h : Expression.programOf ts = .ok program) : ∃ t, Derives .expr ts t := by
  obtain ⟨hcloses, hsurplus⟩ := closes_and_surplus_of_programOf h
  exact (completes_of_tight htypable htight).factor 0 [] .start hcloses hsurplus

/-- The tokens of a source are a formula if and only if the source compiles and no number directly
follows a number or a closing parenthesis. -/
theorem exists_derives_iff_compile {source : String} (hscan : Token.scan source = .ok ts) :
    (∃ t, Derives .expr ts t) ↔ (∃ e, Expression.compile source = .ok e) ∧ Tight ts := by
  have hcompile : Expression.compile source = (Expression.programOf ts).map (⟨source, ·⟩) := by
    rw [Expression.compile, hscan]
  constructor
  · rintro ⟨t, ht⟩
    refine ⟨⟨⟨source, t.postorder⟩, ?_⟩, tight_of_isChain_meets ht.isChain_meets⟩
    rw [hcompile, programOf_of_derives ht]
    rfl
  · rintro ⟨⟨e, he⟩, htight⟩
    rw [hcompile] at he
    cases hprogram : Expression.programOf ts with
    | error _ =>
      rw [hprogram] at he
      cases he
    | ok program => exact exists_derives_of_programOf (isTypable_of_scan hscan) htight hprogram

/-- A formula in which two products have no sign. -/
theorem exists_derives_group :
    Token.scan "-2(x - y3)" = .ok [Token.minus, .number 2, .leftParen, .var "x", Token.minus,
      .var "y", .number 3, .rightParen] ∧
    ∃ t, Derives .expr [Token.minus, .number 2, .leftParen, .var "x", Token.minus, .var "y",
      .number 3, .rightParen] t := by
  have hscan : Token.scan "-2(x - y3)" = .ok [Token.minus, .number 2, .leftParen, .var "x",
      Token.minus, .var "y", .number 3, .rightParen] := by decide +kernel
  have hcompile : Expression.compile "-2(x - y3)" = .ok ⟨"-2(x - y3)", [.number 2,
      Token.negation, .var "x", .var "y", .number 3, Token.times, Token.minus, Token.times]⟩ := by
    decide +kernel
  exact ⟨hscan, (exists_derives_iff_compile hscan).2 ⟨⟨_, hcompile⟩, by decide⟩⟩

/-- A source that compiles although its operator stands behind both operands. -/
theorem compile_operator_last :
    Token.scan "2 3 +" = .ok [.number 2, .number 3, .operator "+"] ∧
    Expression.compile "2 3 +" = .ok ⟨"2 3 +", [.number 2, .number 3, .operator "+"]⟩ ∧
    ¬ ∃ t, Derives .expr [.number 2, .number 3, .operator "+"] t := by
  refine ⟨by decide +kernel, by decide +kernel, ?_⟩
  rintro ⟨t, ht⟩
  have htight := tight_of_isChain_meets ht.isChain_meets
  exact absurd htight (by decide)

end Plotter
