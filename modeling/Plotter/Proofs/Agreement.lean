import Plotter.Proofs.Tree

/-!
# The check foresees the run

The check follows the number of values on the stack, the run follows the values themselves. The two
test a token in different orders and name different defects, but they stop at the same token: as
long as every variable has a value, the number that the check keeps is the length of the stack.
-/

namespace Plotter

/-- Whether every variable of the program has a value. -/
def Bindings.Covers (bindings : Bindings) (program : List Token) : Prop :=
  ∀ name, .var name ∈ program → bindings.lacks name = false

namespace Program

variable {bindings : Bindings} {token : Token} {stack : List Float} {program : List Token}

/-! ## One token -/

/-- A token that the check admits can be run, and the numbers of values stay equal. -/
theorem exists_evalStep_of_depthStep (hb : bindings.Covers [token]) {depth : Nat}
    (h : depthStep stack.length token = .ok depth) :
    ∃ stack', evalStep bindings stack token = .ok stack' ∧ stack'.length = depth := by
  cases token with
  | number value => exact ⟨value :: stack, rfl, by cases h; rfl⟩
  | var name =>
    obtain ⟨value, hvalue⟩ := Option.isSome_iff_exists.1
      (by simpa [Bindings.lacks] using hb name (by simp))
    exact ⟨value :: stack, by simp [evalStep, hvalue], by cases h; rfl⟩
  | function name =>
    simp only [depthStep] at h
    split_ifs at h with hname hdepth
    obtain ⟨f, hf⟩ := Option.ne_none_iff_exists'.1 (by simpa using hname)
    obtain ⟨argument, rest, rfl⟩ := List.exists_cons_of_length_pos (by omega : 0 < stack.length)
    exact ⟨f.apply argument :: rest, by simp [evalStep, hf], by cases h; rfl⟩
  | operator symbol =>
    simp only [depthStep] at h
    split_ifs at h with hsymbol hdepth
    obtain ⟨op, hop⟩ := Option.ne_none_iff_exists'.1 (by simpa using hsymbol)
    rcases stack with _ | ⟨right, _ | ⟨left, rest⟩⟩
    · exact absurd (by simp) hdepth
    · exact absurd (by simp) hdepth
    · exact ⟨op.apply left right :: rest, by simp [evalStep, hop], by cases h; rfl⟩
  | leftParen => cases h
  | rightParen => cases h

/-- A token that the check turns down cannot be run, though the defect found may be another one. -/
theorem exists_evalStep_error_of_depthStep {d : Defect}
    (h : depthStep stack.length token = .error d) :
    ∃ d', evalStep bindings stack token = .error (.malformed d') := by
  cases token with
  | number value => cases h
  | var name => cases h
  | function name =>
    cases stack with
    | nil => exact ⟨.missingArgument name, rfl⟩
    | cons argument rest =>
      simp only [depthStep] at h
      split_ifs at h with hname hdepth
      · exact ⟨.unknownFunction name, by simp [evalStep, Option.isNone_iff_eq_none.1 hname]⟩
      · exact absurd hdepth (by simp)
  | operator symbol =>
    rcases stack with _ | ⟨right, _ | ⟨left, rest⟩⟩
    · exact ⟨.missingOperand symbol, rfl⟩
    · exact ⟨.missingOperand symbol, rfl⟩
    · simp only [depthStep] at h
      split_ifs at h with hsymbol hdepth
      · exact ⟨.unknownOperator symbol, by simp [evalStep, Option.isNone_iff_eq_none.1 hsymbol]⟩
      · exact absurd hdepth (by simp)
  | leftParen => exact ⟨.parenthesis .left, rfl⟩
  | rightParen => exact ⟨.parenthesis .right, rfl⟩

/-! ## All tokens -/

/-- Whatever the check takes in can be run, and the numbers of values stay equal. -/
theorem exists_foldlM_evalStep_of_depthStep (hb : bindings.Covers program) (stack : List Float)
    {depth : Nat} (h : program.foldlM depthStep stack.length = .ok depth) :
    ∃ stack', program.foldlM (evalStep bindings) stack = .ok stack' ∧ stack'.length = depth := by
  induction program generalizing stack with
  | nil => exact ⟨stack, rfl, by cases h; rfl⟩
  | cons token program ih =>
    obtain ⟨between, hstep, hrest⟩ := exists_step_of_foldlM_cons h
    obtain ⟨stack', hrun, rfl⟩ := exists_evalStep_of_depthStep
      (fun name hname => hb name (by simp_all)) hstep
    obtain ⟨stack'', hrun', hlength⟩ :=
      ih (fun name hname => hb name (by simp [hname])) stack' hrest
    exact ⟨stack'', by rw [foldlM_cons_of_ok hrun, hrun'], hlength⟩

theorem exists_failsAt_evalStep_of_depthStep (hb : bindings.Covers program) {i : Nat} {d : Defect}
    (h : FailsAt depthStep 0 program i d) :
    ∃ d', FailsAt (evalStep bindings) [] program i (.malformed d') := by
  obtain ⟨depth, token, hbefore, htoken, hstep⟩ := h
  obtain ⟨stack, hrun, rfl⟩ := exists_foldlM_evalStep_of_depthStep
    (fun name hname => hb name (List.mem_of_mem_take hname)) [] hbefore
  obtain ⟨d', hd'⟩ := exists_evalStep_error_of_depthStep hstep
  exact ⟨d', stack, token, hrun, htoken, hd'⟩

theorem eval_eq_of_foldlM_error {e : EvalError}
    (h : program.foldlM (evalStep bindings) [] = .error e) : eval bindings program = .error e := by
  simp [eval, h]

theorem eval_eq_of_length_ne_one {stack : List Float}
    (h : program.foldlM (evalStep bindings) [] = .ok stack) (hne : stack.length ≠ 1) :
    eval bindings program = .error (.malformed (.leaves stack.length)) := by
  rcases stack with _ | ⟨right, _ | ⟨left, rest⟩⟩
  · simp [eval, h]
  · exact absurd rfl hne
  · simp [eval, h]

/-- A program that the check turns down is turned down at a token, or only at the end, for the
number of values that it leaves. -/
theorem failsAt_or_length_ne_one_of_check {d : Defect} (h : check program = .error d) :
    (∃ i, FailsAt depthStep 0 program i d) ∨
      ∃ depth, program.foldlM depthStep 0 = .ok depth ∧ depth ≠ 1 := by
  simp only [check] at h
  split at h
  · rename_i d' hrun
    cases h
    exact .inl (exists_failsAt hrun)
  · rename_i depth hrun
    refine .inr ⟨depth, hrun, ?_⟩
    rintro rfl
    by_cases hempty : program = []
    · rw [hempty] at hrun
      cases hrun
    · rw [if_neg hempty, if_pos rfl] at h
      cases h

end Program

/-- The check and the run agree on every program. If the check accepts, the program has a value as
soon as all its variables have one, and otherwise the error is a variable without a value. If the
check turns it down and all variables have values, the program is malformed, and either both stop
at the same token or both take in all tokens. -/
theorem check_agrees_with_eval (program : List Token) (bindings : Bindings) :
    (Program.check program = .ok () →
      (bindings.Covers program → ∃ x, Program.eval bindings program = .ok x) ∧
      (¬ bindings.Covers program → ∃ name, .var name ∈ program ∧ bindings name = none ∧
        Program.eval bindings program = .error (.unbound name))) ∧
    ∀ d, Program.check program = .error d → bindings.Covers program →
      ∃ d', Program.eval bindings program = .error (.malformed d') ∧
        ((∃ i, FailsAt Program.depthStep 0 program i d ∧
            FailsAt (Program.evalStep bindings) [] program i (.malformed d')) ∨
          ((∃ depth, program.foldlM Program.depthStep 0 = .ok depth) ∧
            ∃ stack, program.foldlM (Program.evalStep bindings) [] = .ok stack)) := by
  refine ⟨?_, ?_⟩
  · intro hcheck
    obtain ⟨t, rfl⟩ := Tree.exists_postorder_of_check hcheck
    rw [Tree.eval_postorder]
    refine ⟨?_, ?_⟩
    · intro hb
      exact Tree.exists_value_of_bound fun name hname => hb name (Tree.mem_leafNames_iff.1 hname)
    · intro hb
      cases hfind : t.leafNames.find? bindings.lacks with
      | none =>
        refine absurd (fun name hname => ?_) hb
        simpa using List.find?_eq_none.1 hfind name (Tree.mem_leafNames_iff.2 hname)
      | some name =>
        refine ⟨name, Tree.mem_leafNames_iff.1 (List.mem_of_find?_eq_some hfind), ?_,
          Tree.value_of_find?_eq_some hfind⟩
        simpa [Bindings.lacks] using List.find?_some hfind
  · intro d hcheck hb
    rcases Program.failsAt_or_length_ne_one_of_check hcheck with ⟨i, hi⟩ | ⟨depth, hrun, hne⟩
    · obtain ⟨d', hd'⟩ := Program.exists_failsAt_evalStep_of_depthStep hb hi
      exact ⟨d', Program.eval_eq_of_foldlM_error hd'.foldlM_eq, .inl ⟨i, hi, hd'⟩⟩
    · obtain ⟨stack, hstack, rfl⟩ :=
        Program.exists_foldlM_evalStep_of_depthStep hb [] hrun
      exact ⟨_, Program.eval_eq_of_length_ne_one hstack hne, .inr ⟨⟨_, hrun⟩, stack, hstack⟩⟩

end Plotter
