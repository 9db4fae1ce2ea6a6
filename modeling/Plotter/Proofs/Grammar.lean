import Plotter.Infix.Juxtaposition
import Plotter.Proofs.Tree

/-!
# The infix grammar

A formula is a sum of terms, a term a product of factors, a factor a power with or without a minus
sign, and a power an atom with or without an exponent, which is a factor again. A product may be
written without a sign. `Derives` relates the tokens of a phrase to its tree. Products and sums grow
to the right one operand at a time, which is how a reader meets them.
-/

namespace Plotter

/-- The categories of the infix grammar. -/
inductive Phrase where
  /-- A sum of terms. -/
  | expr
  /-- A product of factors. -/
  | term
  /-- A power with an optional minus sign. -/
  | factor
  /-- An atom with an optional exponent. -/
  | power
  /-- A number, a variable, a function of an atom, or a formula in parentheses. -/
  | atom
deriving DecidableEq, Repr

/-- Whether a power that begins with `first` may follow a term that ends with `last` directly. -/
def Adjoins (last first : Token) : Prop :=
  match first with
  | .var _ | .function _ | .leftParen => True
  | .number _ => ∃ name, last = .var name
  | _ => False

/-- The tokens `ts` are a phrase of the category, and `t` is its tree. -/
inductive Derives : Phrase → List Token → Tree → Prop where
  /-- A term is a formula. -/
  | exprOfTerm {ts : List Token} {t : Tree} : Derives .term ts t → Derives .expr ts t
  /-- A formula and a term are added or subtracted. -/
  | sum {ss ts : List Token} {s t : Tree} {op : BinaryOp} :
      op = .add ∨ op = .sub → Derives .expr ss s → Derives .term ts t →
      Derives .expr (ss ++ .operator op.symbol :: ts) (.binary op s t)
  /-- A factor is a term. -/
  | termOfFactor {ts : List Token} {t : Tree} : Derives .factor ts t → Derives .term ts t
  /-- A term and a factor are multiplied or divided. -/
  | product {ss ts : List Token} {s t : Tree} {op : BinaryOp} :
      op = .mul ∨ op = .div → Derives .term ss s → Derives .factor ts t →
      Derives .term (ss ++ .operator op.symbol :: ts) (.binary op s t)
  /-- A term and a power are multiplied without a sign. -/
  | juxtaposition {ss ts : List Token} {s t : Tree} {last first : Token} :
      Derives .term ss s → Derives .power ts t → ss.getLast? = some last →
      ts.head? = some first → Adjoins last first → Derives .term (ss ++ ts) (.binary .mul s t)
  /-- A power is a factor. -/
  | factorOfPower {ts : List Token} {t : Tree} : Derives .power ts t → Derives .factor ts t
  /-- A power with a minus sign is a factor. -/
  | negation {ts : List Token} {t : Tree} :
      Derives .power ts t → Derives .factor (Token.minus :: ts) (.unary .neg t)
  /-- An atom is a power. -/
  | powerOfAtom {ts : List Token} {t : Tree} : Derives .atom ts t → Derives .power ts t
  /-- An atom is raised to a factor. -/
  | power {ss ts : List Token} {s t : Tree} :
      Derives .atom ss s → Derives .factor ts t →
      Derives .power (ss ++ .operator BinaryOp.pow.symbol :: ts) (.binary .pow s t)
  /-- A number is an atom. -/
  | number (value : Float) : Derives .atom [.number value] (.number value)
  /-- A variable is an atom. -/
  | var (name : String) : Derives .atom [.var name] (.var name)
  /-- A function applied to an atom is an atom. -/
  | application {ts : List Token} {t : Tree} {f : UnaryFn} :
      f ≠ .neg → Derives .atom ts t → Derives .atom (.function f.name :: ts) (.unary f t)
  /-- A formula in parentheses is an atom. -/
  | parenthesised {ts : List Token} {t : Tree} :
      Derives .expr ts t → Derives .atom (.leftParen :: (ts ++ [.rightParen])) t

/-- Whether the token begins an operand that has no minus sign. -/
def startsOperand : Token → Bool
  | .number _ | .var _ | .function _ | .leftParen => true
  | _ => false

namespace Derives

variable {c : Phrase} {ss ts us : List Token} {s t u : Tree}

/-! ## The ends of a phrase -/

/-- A phrase ends with a token that ends an operand. -/
theorem exists_getLast (h : Derives c ts t) :
    ∃ last, ts.getLast? = some last ∧ Infix.endsOperand last = true := by
  induction h with
  | exprOfTerm _ ih | termOfFactor _ ih | factorOfPower _ ih | powerOfAtom _ ih => exact ih
  | number value => exact ⟨.number value, rfl, rfl⟩
  | var name => exact ⟨.var name, rfl, rfl⟩
  | parenthesised _ _ => exact ⟨.rightParen, by simp [List.getLast?_cons], rfl⟩
  | sum _ _ _ _ ih | product _ _ _ _ ih | negation _ ih | power _ _ _ ih | application _ _ ih =>
    obtain ⟨last, hlast, hends⟩ := ih
    exact ⟨last, by simp [List.getLast?_cons, hlast], hends⟩
  | juxtaposition _ _ _ _ _ _ ih =>
    obtain ⟨last, hlast, hends⟩ := ih
    exact ⟨last, by simp [hlast], hends⟩

/-- An atom begins with a token that starts an operand. -/
theorem exists_head_of_atom (h : Derives .atom ts t) :
    ∃ first, ts.head? = some first ∧ startsOperand first = true := by
  cases h with
  | number value => exact ⟨.number value, rfl, rfl⟩
  | var name => exact ⟨.var name, rfl, rfl⟩
  | application _ _ => exact ⟨_, rfl, rfl⟩
  | parenthesised _ => exact ⟨.leftParen, rfl, rfl⟩

theorem exists_head_of_power (h : Derives .power ts t) :
    ∃ first, ts.head? = some first ∧ startsOperand first = true := by
  cases h with
  | powerOfAtom h => exact h.exists_head_of_atom
  | power h _ =>
    obtain ⟨first, hfirst, hstarts⟩ := h.exists_head_of_atom
    exact ⟨first, by simp [hfirst], hstarts⟩

/-! ## Growing to the right -/

/-- A last operand that is not an atom by itself can be given an exponent: it goes to the last
power of the phrase. -/
theorem exists_raise (h : Derives c ss s) (hu : Derives .factor us u) (hc : c ≠ .atom) :
    ∃ v, Derives c (ss ++ .operator BinaryOp.pow.symbol :: us) v := by
  induction h with
  | exprOfTerm _ ih =>
    obtain ⟨v, hv⟩ := ih (by simp)
    exact ⟨v, .exprOfTerm hv⟩
  | sum hop hs _ _ ih =>
    obtain ⟨v, hv⟩ := ih (by simp)
    exact ⟨_, by simpa using sum hop hs hv⟩
  | termOfFactor _ ih =>
    obtain ⟨v, hv⟩ := ih (by simp)
    exact ⟨v, .termOfFactor hv⟩
  | product hop hs _ _ ih =>
    obtain ⟨v, hv⟩ := ih (by simp)
    exact ⟨_, by simpa using product hop hs hv⟩
  | juxtaposition hs ht hlast hfirst hadj _ ih =>
    obtain ⟨v, hv⟩ := ih (by simp)
    exact ⟨_, by simpa using juxtaposition hs hv hlast (by simp [hfirst]) hadj⟩
  | factorOfPower _ ih =>
    obtain ⟨v, hv⟩ := ih (by simp)
    exact ⟨v, .factorOfPower hv⟩
  | negation _ ih =>
    obtain ⟨v, hv⟩ := ih (by simp)
    exact ⟨_, .negation hv⟩
  | powerOfAtom ht _ => exact ⟨_, .power ht hu⟩
  | power hs _ _ ih =>
    obtain ⟨v, hv⟩ := ih (by simp)
    exact ⟨_, by simpa using power hs hv⟩
  | number _ | var _ | application _ _ _ | parenthesised _ _ => exact absurd rfl hc

theorem exists_multiply {op : BinaryOp} (hop : op = .mul ∨ op = .div) (h : Derives .expr ss s)
    (hu : Derives .factor us u) : ∃ v, Derives .expr (ss ++ .operator op.symbol :: us) v := by
  cases h with
  | exprOfTerm hs => exact ⟨_, .exprOfTerm (.product hop hs hu)⟩
  | sum hop' hs ht => exact ⟨_, by simpa using sum hop' hs (product hop ht hu)⟩

/-- A formula grows by any operator with an operand behind it. -/
theorem exists_operator (op : BinaryOp) (h : Derives .expr ss s) (hu : Derives .factor us u) :
    ∃ v, Derives .expr (ss ++ .operator op.symbol :: us) v := by
  cases op with
  | add => exact ⟨_, .sum (.inl rfl) h (.termOfFactor hu)⟩
  | sub => exact ⟨_, .sum (.inr rfl) h (.termOfFactor hu)⟩
  | mul => exact exists_multiply (.inl rfl) h hu
  | div => exact exists_multiply (.inr rfl) h hu
  | pow => exact exists_raise h hu (by simp)

/-- A formula can be followed directly by a power that may adjoin its last token. -/
theorem exists_adjoin {last first : Token} (h : Derives .expr ss s) (hu : Derives .power us u)
    (hlast : ss.getLast? = some last) (hfirst : us.head? = some first)
    (hadj : Adjoins last first) : ∃ v, Derives .expr (ss ++ us) v := by
  cases h with
  | exprOfTerm hs => exact ⟨_, .exprOfTerm (.juxtaposition hs hu hlast hfirst hadj)⟩
  | sum hop hs ht =>
    obtain ⟨last', hlast', -⟩ := ht.exists_getLast
    have heq : last' = last := by simpa [List.getLast?_cons, hlast'] using hlast
    exact ⟨_, by simpa using sum hop hs (juxtaposition ht hu (heq ▸ hlast') hfirst hadj)⟩

end Derives

end Plotter
