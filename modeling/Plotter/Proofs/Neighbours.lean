import Mathlib.Data.List.Chain
import Plotter.Proofs.Grammar

/-!
# Neighbours in a formula

What may stand side by side in a formula depends on the left neighbour: after an operand comes an
operator, a closing parenthesis or a power that adjoins, and elsewhere an operand begins. So every
operator has an operand on both sides, and no pair of parentheses is empty. A number that directly
follows a number or a closing parenthesis is in no formula.
-/

namespace Plotter

/-- Whether `t` may stand directly after `s` in a formula. -/
def Meets (s t : Token) : Prop :=
  match s with
  | .number _ | .var _ | .rightParen =>
    (∃ symbol, t = .operator symbol) ∨ t = .rightParen ∨ Adjoins s t
  | .function _ => startsOperand t = true
  | .operator _ | .leftParen => startsOperand t = true ∨ t = Token.minus

/-- Whether `t` is a number that stands directly after a number or a closing parenthesis, where no
product is meant. -/
def loose (s t : Token) : Bool :=
  match s, t with
  | .number _, .number _ => true
  | .rightParen, .number _ => true
  | _, _ => false

/-- No number stands directly after a number or a closing parenthesis. -/
def Tight (ts : List Token) : Prop := ts.IsChain fun s t => loose s t = false

instance : DecidablePred Tight := fun ts =>
  inferInstanceAs (Decidable (ts.IsChain fun s t => loose s t = false))

variable {c : Phrase} {s t last first : Token} {ss ts : List Token} {tree : Tree}

theorem meets_of_endsOperand (hends : Infix.endsOperand s = true)
    (h : (∃ symbol, t = .operator symbol) ∨ t = .rightParen ∨ Adjoins s t) : Meets s t := by
  cases s with
  | number _ | var _ | rightParen => exact h
  | function _ | operator _ | leftParen => cases hends

theorem loose_eq_false_of_meets (h : Meets s t) : loose s t = false := by
  cases t with
  | var _ | function _ | operator _ | leftParen | rightParen => cases s <;> rfl
  | number value =>
    cases s with
    | var _ | function _ | operator _ | leftParen => rfl
    | number _ => simp [Meets, Adjoins] at h
    | rightParen => simp [Meets, Adjoins] at h

theorem tight_of_isChain_meets (h : ts.IsChain Meets) : Tight ts :=
  h.imp fun _ _ => loose_eq_false_of_meets

theorem isChain_cons_of_head (ht : ts.IsChain Meets) (hfirst : ts.head? = some first)
    (h : Meets s first) : (s :: ts).IsChain Meets := by
  refine ht.cons ?_
  intro y hy
  obtain rfl : first = y := Option.some.inj (hfirst.symm.trans hy)
  exact h

/-- Two rows of tokens in order are one if their ends may meet. -/
theorem isChain_append_of_ends (hs : ss.IsChain Meets) (ht : ts.IsChain Meets)
    (hlast : ss.getLast? = some last) (hfirst : ts.head? = some first) (h : Meets last first) :
    (ss ++ ts).IsChain Meets := by
  refine hs.append ht ?_
  intro x hx y hy
  obtain rfl : last = x := Option.some.inj (hlast.symm.trans hx)
  obtain rfl : first = y := Option.some.inj (hfirst.symm.trans hy)
  exact h

namespace Derives

/-- Every phrase begins with an operand, which may have a minus sign. -/
theorem exists_head (h : Derives c ts tree) :
    ∃ first, ts.head? = some first ∧ (startsOperand first = true ∨ first = Token.minus) := by
  induction h with
  | exprOfTerm _ ih | termOfFactor _ ih | factorOfPower _ ih | powerOfAtom _ ih => exact ih
  | negation _ _ => exact ⟨Token.minus, rfl, .inr rfl⟩
  | number value => exact ⟨.number value, rfl, .inl rfl⟩
  | var name => exact ⟨.var name, rfl, .inl rfl⟩
  | application _ _ _ => exact ⟨_, rfl, .inl rfl⟩
  | parenthesised _ _ => exact ⟨.leftParen, rfl, .inl rfl⟩
  | sum _ _ _ ih _ | product _ _ _ ih _ | juxtaposition _ _ _ _ _ ih _ | power _ _ ih _ =>
    obtain ⟨first, hfirst, hstarts⟩ := ih
    exact ⟨first, by simp [hfirst], hstarts⟩

/-- What stands on the two sides of an operator need not know of one another. -/
theorem isChain_operator {c' : Phrase} {tree' : Tree} {symbol : String}
    (hs : Derives c ss tree) (ht : Derives c' ts tree') (ihs : ss.IsChain Meets)
    (iht : ts.IsChain Meets) : (ss ++ .operator symbol :: ts).IsChain Meets := by
  obtain ⟨last, hlast, hends⟩ := hs.exists_getLast
  obtain ⟨first, hfirst, hstarts⟩ := ht.exists_head
  have hright : (.operator symbol :: ts).IsChain Meets := isChain_cons_of_head iht hfirst hstarts
  exact isChain_append_of_ends ihs hright hlast rfl (meets_of_endsOperand hends (.inl ⟨symbol, rfl⟩))

/-- In a formula all neighbours may stand side by side. -/
theorem isChain_meets (h : Derives c ts tree) : ts.IsChain Meets := by
  induction h with
  | exprOfTerm _ ih | termOfFactor _ ih | factorOfPower _ ih | powerOfAtom _ ih => exact ih
  | number _ | var _ => exact .singleton _
  | sum _ hs ht ihs iht | product _ hs ht ihs iht | power hs ht ihs iht =>
    exact isChain_operator hs ht ihs iht
  | juxtaposition hs _ hlast hfirst hadj ihs iht =>
    obtain ⟨last', hlast', hends⟩ := hs.exists_getLast
    obtain rfl : last' = _ := Option.some.inj (hlast'.symm.trans hlast)
    exact isChain_append_of_ends ihs iht hlast hfirst
      (meets_of_endsOperand hends (.inr (.inr hadj)))
  | negation ht ih =>
    obtain ⟨first, hfirst, hstarts⟩ := ht.exists_head
    exact isChain_cons_of_head ih hfirst hstarts
  | application _ ht ih =>
    obtain ⟨first, hfirst, hstarts⟩ := ht.exists_head_of_atom
    exact isChain_cons_of_head ih hfirst hstarts
  | parenthesised ht ih =>
    obtain ⟨last, hlast, hends⟩ := ht.exists_getLast
    obtain ⟨first, hfirst, hstarts⟩ := ht.exists_head
    have hclosed := isChain_append_of_ends ih (.singleton Token.rightParen) hlast rfl
      (meets_of_endsOperand hends (.inr (.inl rfl)))
    exact isChain_cons_of_head hclosed (by simp [hfirst]) hstarts

end Derives

end Plotter
