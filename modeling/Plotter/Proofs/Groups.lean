import Plotter.Proofs.Conservation

/-!
# Groups in the yard

What happens between a parenthesis and its partner does not depend on what waits below: an open
parenthesis yields to nothing, so the yard does with the tokens of a group what it does with the
same tokens alone. Tokens that have a postfix order put it out when they stand in parentheses,
whatever the state in which the parenthesis is opened.
-/

namespace Plotter

/-- The tokens with parentheses around them. -/
def grouped (ts : List Token) : List Token := .leftParen :: (ts ++ [.rightParen])

namespace Yard

variable {y z z' : Yard} {t : Token} {ts program : List Token}

/-- The state that `z` is part of if it has been reached from scratch after a parenthesis was opened
in the state `y`. -/
def above (z y : Yard) : Yard := ⟨y.output ++ z.output, z.stack ++ .opening :: y.stack⟩

/-! ## Parts of a step -/

/-- What an operator releases above an open parenthesis does not depend on what lies below it. -/
theorem takeWhile_yields_append (op : BinaryOp) (entries below : List Pending) :
    (entries ++ .opening :: below).takeWhile (Pending.yields op) =
      entries.takeWhile (Pending.yields op) := by
  induction entries with
  | nil => rfl
  | cons e entries ih =>
    rw [List.cons_append, List.takeWhile_cons, List.takeWhile_cons, ih]

theorem dropWhile_yields_append (op : BinaryOp) (entries below : List Pending) :
    (entries ++ .opening :: below).dropWhile (Pending.yields op) =
      entries.dropWhile (Pending.yields op) ++ .opening :: below := by
  induction entries with
  | nil => rfl
  | cons e entries ih =>
    rw [List.cons_append, List.dropWhile_cons, List.dropWhile_cons, ih]
    split <;> rfl

/-- Entries above an open parenthesis are released as they are without anything below. -/
theorem release_above (z y : Yard) (entries stack : List Pending) :
    (z.above y).release entries (stack ++ .opening :: y.stack) =
      (z.release entries stack).above y :=
  eq_of_toList (by simp [above, release]) rfl

theorem pushOperator_above (z y : Yard) (op : BinaryOp) :
    (z.above y).pushOperator op = (z.pushOperator op).above y := by
  have hstack : (z.above y).stack = z.stack ++ .opening :: y.stack := rfl
  rw [pushOperator, pushOperator, hstack, takeWhile_yields_append, dropWhile_yields_append]
  exact release_above z y _ (.operator op :: z.stack.dropWhile (Pending.yields op))

theorem applyFunction_above (z y : Yard) : (z.above y).applyFunction = z.applyFunction.above y := by
  obtain ⟨out, stack⟩ := z
  cases stack with
  | nil => rfl
  | cons top rest =>
    show (if top.takesGroup then _ else _) = above (if top.takesGroup then _ else _) y
    split
    · exact release_above ⟨out, top :: rest⟩ y [top] rest
    · rfl

/-- A parenthesis that was opened above is closed there. -/
theorem close_above (h : z.close = .ok z') (y : Yard) : (z.above y).close = .ok (z'.above y) := by
  obtain ⟨group, below, hstack, hgroup, rfl⟩ := exists_of_close h
  have hsplit : (z.above y).stack = group ++ .opening :: (below ++ .opening :: y.stack) := by
    simp [above, hstack]
  rw [close_of_split hsplit hgroup, release_above, applyFunction_above]

/-! ## Steps and runs -/

theorem step_leftParen_above (y : Yard) : y.step .leftParen = .ok (above {} y) :=
  congrArg Except.ok (eq_of_toList (by simp [above]) rfl)

/-- A step above an open parenthesis is the step without anything below. -/
theorem step_above (h : z.step t = .ok z') (y : Yard) :
    (z.above y).step t = .ok (z'.above y) := by
  cases t with
  | number _ | var _ =>
    cases h
    exact congrArg Except.ok (eq_of_toList (by simp [above]) rfl)
  | function _ | leftParen =>
    cases h
    rfl
  | operator symbol =>
    obtain ⟨op, rfl, rfl⟩ := exists_of_step_operator h
    rw [step_operator, pushOperator_above]
  | rightParen => exact close_above h y

/-- The same holds of a run. -/
theorem run_above (h : ts.foldlM step z = .ok z') (y : Yard) :
    ts.foldlM step (z.above y) = .ok (z'.above y) := by
  induction ts generalizing z with
  | nil =>
    cases h
    rfl
  | cons t ts ih =>
    obtain ⟨w, hstep, hrest⟩ := exists_step_of_foldlM_cons h
    rw [foldlM_cons_of_ok (step_above hstep y)]
    exact ih hrest

/-- A group puts out its postfix order, and then the function before it is applied. -/
theorem run_grouped (h : toPostfix ts = .ok program) (y : Yard) :
    (grouped ts).foldlM step y = .ok (y.emit program).applyFunction := by
  obtain ⟨z, hrun, hfinish⟩ := toPostfix_eq_ok_iff.1 h
  obtain ⟨hopening, rfl⟩ := finish_eq_ok_iff.1 hfinish
  have hclose : (z.above y).close = .ok ((z.above y).release z.stack y.stack).applyFunction :=
    close_of_split rfl hopening
  have hout : (z.above y).release z.stack y.stack =
      y.emit (z.release z.stack []).output.toList :=
    eq_of_toList (by simp [above, release, emit]) rfl
  rw [grouped, foldlM_cons_of_ok (step_leftParen_above y), foldlM_append_of_ok (run_above hrun y),
    ← hout]
  exact foldlM_cons_of_ok hclose

end Yard

end Plotter
