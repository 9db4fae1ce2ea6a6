import Plotter.Proofs.Conservation

/-!
# The first fault in a list of tokens

The yard never counts parentheses. Still, those that wait on its stack are the ones that have been
opened and not closed: an operator releases none of them, and a closing parenthesis takes exactly
one off. So the reordering stops at the first token that is an unknown operator or closes a
parenthesis too many, and finds out at the end whether one too many has been opened.
-/

namespace Plotter

/-- The token at the index is at fault for what it is, or for the parentheses up to it. -/
inductive FaultAt (ts : List Token) (i : Nat) : OrderError → Prop where
  /-- The token is an operator that does not exist. -/
  | unknown {symbol : String} : ts[i]? = some (.operator symbol) →
      BinaryOp.ofSymbol? symbol = none → FaultAt ts i (.unknownOperator symbol)
  /-- The token is a closing parenthesis, and up to it more are closed than opened. -/
  | overclosed : ts[i]? = some .rightParen →
      (ts.take (i + 1)).count .leftParen < (ts.take (i + 1)).count .rightParen →
      FaultAt ts i (.unmatched .right)

variable {t : Token} {ts ps : List Token} {i j : Nat} {e : OrderError}

theorem FaultAt.of_take (hj : j < i) (h : FaultAt (ts.take i) j e) : FaultAt ts j e := by
  have htake : (ts.take i).take (j + 1) = ts.take (j + 1) := by
    rw [List.take_take, Nat.min_eq_left hj]
  cases h with
  | unknown ht hsymbol => exact .unknown (by rwa [List.getElem?_take_of_lt hj] at ht) hsymbol
  | overclosed ht hcount =>
    rw [htake] at hcount
    exact .overclosed (by rwa [List.getElem?_take_of_lt hj] at ht) hcount

theorem count_take_succ_rightParen (ht : ts[i]? = some .rightParen) :
    (ts.take (i + 1)).count .leftParen = (ts.take i).count .leftParen ∧
      (ts.take (i + 1)).count .rightParen = (ts.take i).count .rightParen + 1 := by
  have htake : ts.take (i + 1) = ts.take i ++ [.rightParen] := by
    rw [List.take_add_one, ht]
    rfl
  exact ⟨by simp [htake], by simp [htake]⟩

/-! ## Parentheses in the yard -/

namespace Yard

variable {y y' : Yard}

/-- The open parentheses of the yard are those read and not closed yet. -/
theorem opened_run (h : ts.foldlM step y = .ok y') :
    y'.opened + ts.count .rightParen = y.opened + ts.count .leftParen := by
  induction ts generalizing y with
  | nil =>
    cases h
    rfl
  | cons t ts ih =>
    obtain ⟨z, hstep, hrest⟩ := exists_step_of_foldlM_cons h
    have hhead := opened_step hstep
    have htail := ih hrest
    rw [← List.singleton_append, List.count_append, List.count_append]
    omega

/-- Where a run goes through, no beginning closes more parentheses than it opens. -/
theorem count_le_of_run (h : ts.foldlM step {} = .ok y) (hp : ps <+: ts) :
    ps.count .rightParen ≤ ps.count .leftParen := by
  obtain ⟨rest, rfl⟩ := hp
  obtain ⟨z, hrun, -⟩ := exists_run_of_foldlM_append h
  have hopened := opened_run hrun
  have hstart : opened {} = 0 := rfl
  omega

theorem close_eq_error_iff : y.close = .error e ↔ y.opened = 0 ∧ e = .unmatched .right := by
  rw [opened, List.count_eq_zero]
  by_cases hmem : .opening ∈ y.stack
  · obtain ⟨group, below, hstack, hgroup⟩ := List.eq_append_cons_of_mem hmem
    rw [close_of_split hstack hgroup]
    simp [hmem]
  · rw [close_of_not_mem hmem]
    simp [hmem, eq_comm]

/-- After a run up to the index, the step there fails if and only if its token is at fault. -/
theorem step_eq_error_iff (hrun : (ts.take i).foldlM step {} = .ok y) (ht : ts[i]? = some t) :
    y.step t = .error e ↔ FaultAt ts i e := by
  have hopened := opened_run hrun
  have hstart : opened {} = 0 := rfl
  constructor
  · intro h
    cases t with
    | number _ | var _ | function _ | leftParen => cases h
    | operator symbol =>
      simp only [step] at h
      split at h
      · cases h
      · rename_i hsymbol
        cases h
        exact .unknown ht hsymbol
    | rightParen =>
      obtain ⟨hzero, rfl⟩ := close_eq_error_iff.1 h
      obtain ⟨hleft, hright⟩ := count_take_succ_rightParen ht
      exact .overclosed ht (by omega)
  · intro h
    cases h with
    | unknown ht' hsymbol =>
      obtain rfl := Option.some.inj (ht.symm.trans ht')
      simp [step, hsymbol]
    | overclosed ht' hcount =>
      obtain rfl := Option.some.inj (ht.symm.trans ht')
      obtain ⟨hleft, hright⟩ := count_take_succ_rightParen ht
      exact close_eq_error_iff.2 ⟨by omega, rfl⟩

/-! ## Where a run fails -/

theorem faultAt_of_failsAt (h : FailsAt step {} ts i e) : FaultAt ts i e := by
  obtain ⟨y, t, hrun, ht, hstep⟩ := h
  exact (step_eq_error_iff hrun ht).1 hstep

theorem exists_faultAt_of_run (h : ts.foldlM step {} = .error e) : ∃ i, FaultAt ts i e := by
  obtain ⟨i, hi⟩ := exists_failsAt h
  exact ⟨i, faultAt_of_failsAt hi⟩

/-- A run fails at the first token that is at fault. -/
theorem failsAt_of_first (h : FaultAt ts i e) (hfirst : ∀ j < i, ∀ d, ¬ FaultAt ts j d) :
    FailsAt step {} ts i e := by
  obtain ⟨t, ht⟩ : ∃ t, ts[i]? = some t := by
    cases h with
    | unknown ht _ | overclosed ht _ => exact ⟨_, ht⟩
  cases hrun : (ts.take i).foldlM step {} with
  | error d =>
    -- A fault before the index would be a fault of the whole list.
    obtain ⟨j, hj⟩ := exists_faultAt_of_run hrun
    have hlt : j < i := by
      by_contra hle
      have hnone : (ts.take i)[j]? = none := by
        rw [List.getElem?_take]
        simp [hle]
      cases hj with
      | unknown ht' _ | overclosed ht' _ => simp [hnone] at ht'
    exact absurd (hj.of_take hlt) (hfirst j hlt d)
  | ok y => exact ⟨y, t, hrun, ht, (step_eq_error_iff hrun ht).2 h⟩

/-- At the end only an open parenthesis is an error. -/
theorem finish_cases (y : Yard) :
    (0 < y.opened ∧ y.finish = .error (.unmatched .left)) ∨
      (y.opened = 0 ∧ ∃ program, y.finish = .ok program) := by
  by_cases hmem : .opening ∈ y.stack
  · exact .inl ⟨List.count_pos_iff.2 hmem, by simp [finish, hmem]⟩
  · exact .inr ⟨List.count_eq_zero.2 hmem, (y.release y.stack []).output.toList,
      by simp [finish, hmem]⟩

end Yard

/-! ## The reordering -/

theorem toPostfix_of_run_error (h : ts.foldlM Yard.step {} = .error e) :
    toPostfix ts = .error e := by
  rw [toPostfix, h]

/-- Where a run goes through, all that can be wrong is that a parenthesis has been left open. -/
theorem toPostfix_of_run_ok {y : Yard} (h : ts.foldlM Yard.step {} = .ok y) :
    (ts.count .rightParen < ts.count .leftParen ∧ toPostfix ts = .error (.unmatched .left)) ∨
      (ts.count .rightParen = ts.count .leftParen ∧ ∃ program, toPostfix ts = .ok program) := by
  have hopened := Yard.opened_run h
  have hstart : Yard.opened {} = 0 := rfl
  rw [toPostfix, h]
  rcases y.finish_cases with ⟨hpos, hfinish⟩ | ⟨hzero, hfinish⟩
  · exact .inl ⟨by omega, hfinish⟩
  · exact .inr ⟨by omega, hfinish⟩

/-- The reordering reports the first token that is at fault, as what it is. If there is none, it
reports an opening parenthesis if more are opened than closed, and otherwise it succeeds. -/
theorem toPostfix_reports_first (ts : List Token) :
    (∀ i e, FaultAt ts i e → (∀ j < i, ∀ d, ¬ FaultAt ts j d) → toPostfix ts = .error e) ∧
    ((∀ i e, ¬ FaultAt ts i e) →
      (ts.count .rightParen < ts.count .leftParen → toPostfix ts = .error (.unmatched .left)) ∧
      (¬ ts.count .rightParen < ts.count .leftParen → ∃ program, toPostfix ts = .ok program)) ∧
    (∀ symbol, (CompileError.order (.unknownOperator symbol)).kind = "ExpressionSyntaxError" ∧
      (CompileError.order (.unknownOperator symbol)).message =
        "Unknown operator " ++ Text.quoted symbol) ∧
    ∀ paren, (CompileError.order (.unmatched paren)).kind = "UnmatchedParenError" ∧
      (CompileError.order (.unmatched paren)).message =
        "Unmatched " ++ Text.quoted paren.symbol := by
  refine ⟨?_, ?_, fun _ => ⟨rfl, rfl⟩, fun _ => ⟨rfl, rfl⟩⟩
  · intro i e h hfirst
    exact toPostfix_of_run_error (Yard.failsAt_of_first h hfirst).foldlM_eq
  · intro hnone
    cases hrun : ts.foldlM Yard.step {} with
    | error d =>
      obtain ⟨i, hi⟩ := Yard.exists_faultAt_of_run hrun
      exact absurd hi (hnone i d)
    | ok y =>
      rcases toPostfix_of_run_ok hrun with ⟨hlt, herror⟩ | ⟨heq, hok⟩
      · exact ⟨fun _ => herror, fun hnot => absurd hlt hnot⟩
      · exact ⟨fun hlt => absurd hlt (by omega), fun _ => hok⟩

end Plotter
