import Plotter.Proofs.Grammar

/-!
# Beginnings of formulas

A formula is recognised from left to right. After an operand the tokens so far are complete but for
the partners of the open parentheses; elsewhere they await a factor or an atom. Both are said by
what the tokens would become: whatever phrase is awaited, they are complete after it.
-/

namespace Plotter

/-- The tokens are a formula but for the partners of `n` open parentheses: those in the innermost
ones are a formula, and with any formula in their place and a partner the rest is complete. -/
def Complete : Nat → List Token → Prop
  | 0, us => ∃ t, Derives .expr us t
  | n + 1, us => ∃ vs es, us = vs ++ .leftParen :: es ∧ (∃ t, Derives .expr es t) ∧
      ∀ fs f, Derives .expr fs f → Complete n (vs ++ .leftParen :: (fs ++ [.rightParen]))

/-- The tokens are complete after any phrase of the category. -/
def Awaits (c : Phrase) (n : Nat) (us : List Token) : Prop :=
  ∀ ts t, Derives c ts t → Complete n (us ++ ts)

/-- The tokens are complete after any atom that begins with `first`. -/
def Takes (first : Token) (n : Nat) (us : List Token) : Prop :=
  ∀ ts t, Derives .atom ts t → ts.head? = some first → Complete n (us ++ ts)

variable {n : Nat} {us ts : List Token} {t : Tree} {last first : Token}

/-! ## After an operand -/

namespace Complete

/-- What lets every formula grow lets the innermost one grow. -/
theorem grow (h : Complete n us)
    (hgrow : ∀ es e, Derives .expr es e → es.getLast? = us.getLast? →
      ∃ e', Derives .expr (es ++ ts) e') : Complete n (us ++ ts) := by
  cases n with
  | zero =>
    obtain ⟨e, he⟩ := h
    exact hgrow us e he rfl
  | succ n =>
    obtain ⟨vs, es, rfl, ⟨e, he⟩, hclosed⟩ := h
    have hlast : es.getLast? = (vs ++ .leftParen :: es).getLast? := by
      obtain ⟨last, hlast, -⟩ := he.exists_getLast
      simp [List.getLast?_cons, hlast]
    exact ⟨vs, es ++ ts, by simp, hgrow es e he hlast, hclosed⟩

/-- An operator after an operand awaits the next one. -/
theorem operator (op : BinaryOp) (h : Complete n us) :
    Awaits .factor n (us ++ [.operator op.symbol]) := by
  intro fs f hf
  rw [List.append_assoc, List.singleton_append]
  exact h.grow fun es e he _ => he.exists_operator op hf

/-- A power that adjoins the last token may follow an operand. -/
theorem takes (h : Complete n us) (hlast : us.getLast? = some last) (hadj : Adjoins last first) :
    Takes first n us := by
  intro as a ha hfirst
  exact h.grow fun es e he heq => he.exists_adjoin (.powerOfAtom ha) (heq.trans hlast) hfirst hadj

/-- A parenthesis that was open can be closed after an operand. -/
theorem close (h : Complete (n + 1) us) : Complete n (us ++ [.rightParen]) := by
  obtain ⟨vs, es, rfl, ⟨e, he⟩, hclosed⟩ := h
  simpa using hclosed es e he

end Complete

/-! ## Before an operand -/

namespace Awaits

theorem atom_of_factor (h : Awaits .factor n us) : Awaits .atom n us :=
  fun ts t ht => h ts t (.factorOfPower (.powerOfAtom ht))

theorem takes (h : Awaits .atom n us) : Takes first n us := fun ts t ht _ => h ts t ht

/-- A minus sign where an operand is awaited leaves it awaited, as an atom. -/
theorem minus (h : Awaits .factor n us) : Awaits .atom n (us ++ [Token.minus]) := by
  intro as a ha
  rw [List.append_assoc, List.singleton_append]
  exact h _ _ (.negation (.powerOfAtom ha))

theorem start : Awaits .factor 0 [] :=
  fun _ _ h => ⟨_, .exprOfTerm (.termOfFactor h)⟩

end Awaits

namespace Takes

theorem number {value : Float} (h : Takes (.number value) n us) :
    Complete n (us ++ [.number value]) := h _ _ (.number value) rfl

theorem var {name : String} (h : Takes (.var name) n us) : Complete n (us ++ [.var name]) :=
  h _ _ (.var name) rfl

theorem function {f : UnaryFn} (hf : f ≠ .neg) (h : Takes (.function f.name) n us) :
    Awaits .atom n (us ++ [.function f.name]) := by
  intro as a ha
  rw [List.append_assoc, List.singleton_append]
  exact h _ _ (.application hf ha) rfl

/-- An opening parenthesis awaits a formula, which begins with a factor. -/
theorem leftParen (h : Takes .leftParen n us) : Awaits .factor (n + 1) (us ++ [.leftParen]) := by
  intro fs f hf
  rw [List.append_assoc, List.singleton_append]
  refine ⟨us, fs, rfl, ⟨f, .exprOfTerm (.termOfFactor hf)⟩, ?_⟩
  intro es e he
  exact h _ _ (.parenthesised he) rfl

end Takes

end Plotter
