import Plotter.Proofs.Conservation
import Plotter.Proofs.Signs

/-!
# Operands keep their order

Numbers and variables are put out as soon as they come, whatever waits in the yard; and the signs
that are put in or told apart before are none of them. So the operands of a program are those of
the tokens that it was made of, in the same order.
-/

namespace Plotter

/-- Whether the token is a number or a variable. -/
def Token.isOperand : Token → Bool
  | .number _ | .var _ => true
  | _ => false

/-- The numbers and variables among the tokens. -/
def operands (ts : List Token) : List Token := ts.filter Token.isOperand

variable {s t : Token} {ss ts program : List Token}

@[simp]
theorem operands_nil : operands [] = [] := rfl

@[simp]
theorem operands_append (ss ts : List Token) : operands (ss ++ ts) = operands ss ++ operands ts :=
  List.filter_append ..

theorem operands_cons (t : Token) (ts : List Token) :
    operands (t :: ts) = operands [t] ++ operands ts :=
  operands_append [t] ts

/-- Nothing that waits is an operand. -/
theorem operands_map_token (entries : List Pending) :
    operands (entries.map Pending.token) = [] := by
  rw [operands, List.filter_eq_nil_iff]
  intro t ht
  obtain ⟨entry, -, rfl⟩ := List.mem_map.1 ht
  cases entry <;> simp [Pending.token, Token.isOperand]

/-! ## In the yard -/

namespace Yard

variable {y y' : Yard}

/-- The operands that have been put out. -/
def operandsOut (y : Yard) : List Token := operands y.output.toList

/-- No operand is put out when entries are released. -/
theorem operandsOut_release (y : Yard) (entries stack : List Pending) :
    (y.release entries stack).operandsOut = y.operandsOut := by
  simp [operandsOut, release, operands_map_token]

theorem operandsOut_close (h : y.close = .ok y') : y'.operandsOut = y.operandsOut := by
  obtain ⟨group, below, -, -, rfl⟩ := exists_of_close h
  obtain ⟨entries, rest, -, -, heq⟩ := exists_applyFunction (y.release group below)
  rw [heq, operandsOut_release, operandsOut_release]

/-- A step puts its token out if it is an operand, and no other operand. -/
theorem operandsOut_step (h : y.step t = .ok y') :
    y'.operandsOut = y.operandsOut ++ operands [t] := by
  cases t with
  | number _ | var _ =>
    cases h
    simp [operandsOut, operands]
  | function _ | leftParen =>
    cases h
    simp [operandsOut, operands, Token.isOperand]
  | operator symbol =>
    obtain ⟨op, -, rfl⟩ := exists_of_step_operator h
    rw [pushOperator, operandsOut_release]
    simp [operands, Token.isOperand]
  | rightParen =>
    rw [operandsOut_close h]
    simp [operands, Token.isOperand]

/-- A run puts out the operands in the order in which it reads them. -/
theorem operandsOut_run (h : ts.foldlM step y = .ok y') :
    y'.operandsOut = y.operandsOut ++ operands ts := by
  induction ts generalizing y with
  | nil =>
    cases h
    simp
  | cons t ts ih =>
    obtain ⟨z, hstep, hrest⟩ := exists_step_of_foldlM_cons h
    rw [ih hrest, operandsOut_step hstep, operands_cons t ts, List.append_assoc]

theorem operands_of_finish (h : y.finish = .ok program) : operands program = y.operandsOut := by
  obtain ⟨-, rfl⟩ := finish_eq_ok_iff.1 h
  exact operandsOut_release y y.stack []

end Yard

/-- Reordering keeps the operands in their order. -/
theorem operands_of_toPostfix (h : toPostfix ts = .ok program) :
    operands program = operands ts := by
  obtain ⟨y, hrun, hfinish⟩ := toPostfix_eq_ok_iff.1 h
  rw [Yard.operands_of_finish hfinish, Yard.operandsOut_run hrun]
  rfl

/-! ## Before the yard -/

/-- A program has the operands of the tokens that it was made of, in the same order. -/
theorem operands_of_programOf (h : Expression.programOf ts = .ok program) :
    operands program = operands ts := by
  rw [operands_of_toPostfix (Expression.programOf_eq_ok_iff.1 h).1, operands, operands,
    ← List.filterMap_eq_filter]
  exact Infix.filterMap_prepare rfl rfl rfl true ts

end Plotter
