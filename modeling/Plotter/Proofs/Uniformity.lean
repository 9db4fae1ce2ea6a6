import Plotter.Proofs.Tracing
import Plotter.Proofs.Tree

/-!
# Errors do not depend on numbers

A run takes its turns by the tokens of the program, by the names that have values and by the number
of values on the stack, but never by the values. So two runs of a program whose bindings bind the
same names go alike. A curve therefore fails everywhere or nowhere: if it fails, it does so at the
first point of the grid, whatever the grid is.
-/

namespace Plotter

variable {b b' : Bindings} {stack stack' : List Float} {e : Expression} {g : Grid} {x : Float}
  {error : EvalError}

/-! ## Runs of a program -/

namespace Program

/-- The stacks have equally many values, whatever these are. -/
def SameDepth : List Float → List Float → Prop := List.Forall₂ fun _ _ => True

/-- Stacks of the same depth stay so, or both steps fail alike, if the same names are bound. -/
theorem evalStep_alike (hb : ∀ name, b.lacks name = b'.lacks name) (h : SameDepth stack stack')
    (token : Token) : Alike SameDepth (evalStep b stack token) (evalStep b' stack' token) := by
  cases token with
  | number value => exact .ok (.cons trivial h)
  | var name =>
    have hname : (b name).isNone = (b' name).isNone := hb name
    simp only [evalStep]
    cases hvalue : b name with
    | none =>
      rw [hvalue] at hname
      rw [Option.isNone_iff_eq_none.1 hname.symm]
      exact .error _
    | some value =>
      cases hvalue' : b' name with
      | none =>
        rw [hvalue, hvalue'] at hname
        cases hname
      | some value' => exact .ok (.cons trivial h)
  | operator symbol =>
    rcases h with _ | ⟨-, _ | ⟨-, hrest⟩⟩
    · exact .error _
    · exact .error _
    · simp only [evalStep]
      cases BinaryOp.ofSymbol? symbol with
      | none => exact .error _
      | some op => exact .ok (.cons trivial hrest)
  | function name =>
    rcases h with _ | ⟨-, hrest⟩
    · exact .error _
    · simp only [evalStep]
      cases UnaryFn.ofName? name with
      | none => exact .error _
      | some f => exact .ok (.cons trivial hrest)
  | leftParen => exact .error _
  | rightParen => exact .error _

/-- A run succeeds or fails alike under bindings of the same names. -/
theorem eval_alike (hb : ∀ name, b.lacks name = b'.lacks name) (program : List Token) :
    Alike (fun _ _ => True) (eval b program) (eval b' program) := by
  have hrun : Alike SameDepth (program.foldlM (evalStep b) []) (program.foldlM (evalStep b') []) :=
    foldlM_alike (fun _ _ token h => evalStep_alike hb h token) program .nil
  rw [eval, eval]
  generalize program.foldlM (evalStep b) [] = r, program.foldlM (evalStep b') [] = r' at hrun
  cases hrun with
  | error e => exact .error _
  | ok hdepth =>
    rcases hdepth with _ | ⟨-, _ | ⟨-, hrest⟩⟩
    · exact .error _
    · exact .ok trivial
    · simp only [List.length_cons, hrest.length_eq]
      exact .error _

end Program

/-! ## Values at a place -/

theorem lacks_only (bound : String) (x x' : Float) (name : String) :
    (Bindings.only bound x).lacks name = (Bindings.only bound x').lacks name := by
  simp only [Bindings.lacks, Bindings.only]
  split <;> rfl

namespace Expression

theorem evaluateAt_alike (e : Expression) (x x' : Float) :
    Alike (fun _ _ => True) (e.evaluateAt x) (e.evaluateAt x') :=
  Program.eval_alike (lacks_only plotVariable x x') e.program

theorem evaluateAt_eq_error_of_eq_error (h : e.evaluateAt x = .error error) (x' : Float) :
    e.evaluateAt x' = .error error := by
  have halike := e.evaluateAt_alike x x'
  rw [h] at halike
  generalize e.evaluateAt x' = r at halike
  cases halike
  rfl

/-! ## Curves -/

theorem trace_eq_error_iff {s : Curve.Pass} :
    e.trace s x = .error error ↔ e.evaluateAt x = .error error := by
  rw [← pointAt_eq_error_iff, trace]
  cases e.pointAt x <;> simp [Except.map]

/-- A pass fails at the first place or not at all. -/
theorem eq_zero_of_failsAt {s : Curve.Pass} {xs : List Float} {i : Nat}
    (h : FailsAt e.trace s xs i error) : i = 0 := by
  obtain ⟨s', x, hbefore, hx, herror⟩ := h
  cases i with
  | zero => rfl
  | succ i =>
    cases xs with
    | nil => cases hx
    | cons first xs =>
      have hfirst : e.trace s first = .error error :=
        trace_eq_error_iff.2 (evaluateAt_eq_error_of_eq_error (trace_eq_error_iff.1 herror) first)
      rw [List.take_succ_cons, foldlM_cons_of_error hfirst] at hbefore
      cases hbefore

/-- A curve is drawn to the end, or the expression has no value at the first place. -/
theorem sample_cases (e : Expression) (g : Grid) :
    ((∃ s, g.points.foldlM e.trace {} = .ok s) ∧ (e.sample g).1.error = none) ∨
      ∃ error, FailsAt e.trace {} g.points 0 error ∧
        e.sample g = (.failed g.points.length error, [e.failureRecord error]) := by
  rw [sample_eq_trace]
  cases hrun : g.points.foldlM e.trace {} with
  | ok s => exact .inl ⟨⟨s, rfl⟩, rfl⟩
  | error error =>
    obtain ⟨i, hfails⟩ := exists_failsAt hrun
    obtain rfl := eq_zero_of_failsAt hfails
    exact .inr ⟨error, hfails, rfl⟩

theorem error_sample_eq_some_iff :
    (e.sample g).1.error = some error ↔ ∀ x, e.evaluateAt x = .error error := by
  constructor
  · intro h
    rcases e.sample_cases g with ⟨-, hnone⟩ | ⟨error', ⟨s, x, -, -, herror⟩, hsample⟩
    · rw [hnone] at h
      cases h
    · rw [hsample] at h
      cases h
      exact evaluateAt_eq_error_of_eq_error (trace_eq_error_iff.1 herror)
  · intro h
    have hpos : 0 < g.points.length := by
      have htwo := g.two_le_samples
      rw [g.length_points]
      omega
    obtain ⟨x, xs, hpoints⟩ := List.exists_cons_of_length_pos hpos
    rw [sample_eq_trace, hpoints, foldlM_cons_of_error (trace_eq_error_iff.2 (h x))]
    rfl

end Expression

/-- Whether a program fails, and how, depends on which names have values, but not on the values. So
the curve of an expression has the same error on all grids. The pass over a grid fails at its first
point if it fails at all, and the curve then tells the error. -/
theorem failure_uniform :
    (∀ (program : List Token) (b b' : Bindings), (∀ name, b.lacks name = b'.lacks name) →
      ((∃ x, Program.eval b program = .ok x) ∧ ∃ x', Program.eval b' program = .ok x') ∨
        ∃ error, Program.eval b program = .error error ∧ Program.eval b' program = .error error) ∧
    ∀ e : Expression,
      (∀ g g' : Grid, (e.sample g).1.error = (e.sample g').1.error) ∧
      ∀ g : Grid,
        (∀ i error, FailsAt e.trace {} g.points i error → i = 0) ∧
        (((∃ s, g.points.foldlM e.trace {} = .ok s) ∧ (e.sample g).1.error = none) ∨
          ∃ error, FailsAt e.trace {} g.points 0 error ∧
            e.sample g = (.failed g.points.length error, [e.failureRecord error])) := by
  refine ⟨fun program b b' hb => ?_, fun e => ⟨fun g g' => ?_, fun g => ⟨?_, e.sample_cases g⟩⟩⟩
  · have halike := Program.eval_alike hb program
    generalize Program.eval b program = r, Program.eval b' program = r' at halike
    cases halike with
    | ok => exact .inl ⟨⟨_, rfl⟩, _, rfl⟩
    | error error => exact .inr ⟨error, rfl, rfl⟩
  · ext error
    rw [Expression.error_sample_eq_some_iff, Expression.error_sample_eq_some_iff]
  · exact fun i error => Expression.eq_zero_of_failsAt

/-- A quotient has a value even where its denominator is zero or no number; a variable other than `x`
is missed at once. -/
theorem failure_uniform_quotient :
    (∃ x, Program.eval (.only "x" 0) [.number 1, .var "x", .operator "/"] = .ok x) ∧
      (∃ x, Program.eval (.only "x" Double.nan) [.number 1, .var "x", .operator "/"] = .ok x) ∧
      ∃ i, FailsAt (Expression.trace ⟨"y", [.var "y"]⟩) {} Grid.aroundZero.points i (.unbound "y") ∧
        i = 0 := by
  have hfails : FailsAt (Expression.trace ⟨"y", [.var "y"]⟩) {} Grid.aroundZero.points 0
      (.unbound "y") := ⟨{}, _, rfl, rfl, rfl⟩
  rcases failure_uniform.1 [.number 1, .var "x", .operator "/"] _ _ (lacks_only "x" 0 Double.nan)
    with ⟨h, h'⟩ | ⟨error, h, -⟩
  · exact ⟨h, h', 0, hfails, ((failure_uniform.2 _).2 _).1 0 _ hfails⟩
  · cases h

end Plotter
