import Plotter.Proofs.FirstFault
import Plotter.Proofs.Groups
import Plotter.Proofs.Operands

/-!
# Groups stay together

What has been put out stays where it is, and between a parenthesis and its partner nothing is
released of what waits below the parenthesis. So the tokens of a group stand side by side in the
program, in the order that they have on their own, and all other tokens stand before or after them.
-/

namespace Plotter

variable {t : Token} {ts us ms vs program : List Token}

open scoped List

/-! ## What has been put out -/

namespace Yard

variable {y y' z w : Yard}

theorem output_prefix_release (y : Yard) (entries stack : List Pending) :
    y.output.toList <+: (y.release entries stack).output.toList :=
  ⟨entries.map Pending.token, by simp [release]⟩

theorem output_prefix_applyFunction (y : Yard) :
    y.output.toList <+: y.applyFunction.output.toList := by
  obtain ⟨entries, rest, -, -, heq⟩ := exists_applyFunction y
  rw [heq]
  exact output_prefix_release y entries rest

/-- A step puts tokens out at the end only. -/
theorem output_prefix_step (h : y.step t = .ok y') : y.output.toList <+: y'.output.toList := by
  cases t with
  | number _ | var _ =>
    cases h
    simp
  | function _ | leftParen =>
    cases h
    exact List.prefix_rfl
  | operator symbol =>
    obtain ⟨op, -, rfl⟩ := exists_of_step_operator h
    exact output_prefix_release y _ _
  | rightParen =>
    obtain ⟨group, below, -, -, rfl⟩ := exists_of_close h
    exact (output_prefix_release y group below).trans (output_prefix_applyFunction _)

theorem output_prefix_run (h : ts.foldlM step y = .ok y') :
    y.output.toList <+: y'.output.toList := by
  induction ts generalizing y with
  | nil =>
    cases h
    exact List.prefix_rfl
  | cons t ts ih =>
    obtain ⟨z, hstep, hrest⟩ := exists_step_of_foldlM_cons h
    exact (output_prefix_step hstep).trans (ih hrest)

theorem output_prefix_finish (h : y.finish = .ok program) : y.output.toList <+: program := by
  obtain ⟨-, rfl⟩ := finish_eq_ok_iff.1 h
  exact output_prefix_release y y.stack []

/-! ## Above an open parenthesis -/

/-- A step above an open parenthesis is a step from scratch, unless it closes that parenthesis. -/
theorem exists_step_of_above (h : (z.above y).step t = .ok w)
    (hopen : t = .rightParen → z.opened ≠ 0) : ∃ z', z.step t = .ok z' ∧ w = z'.above y := by
  cases hstep : z.step t with
  | ok z' =>
    have habove := step_above hstep y
    rw [h] at habove
    cases habove
    exact ⟨z', rfl, rfl⟩
  | error e =>
    cases t with
    | number _ | var _ | function _ | leftParen => cases hstep
    | operator symbol =>
      -- Whether the symbol is known does not depend on the state.
      obtain ⟨op, rfl, -⟩ := exists_of_step_operator h
      rw [step_operator] at hstep
      cases hstep
    | rightParen => exact absurd (close_eq_error_iff.1 hstep).1 (hopen rfl)

/-- Tokens that close the parentheses among them, and those opened above, run as from scratch. -/
theorem exists_run_of_above (h : ts.foldlM step (z.above y) = .ok w) (hts : Closes z.opened ts) :
    ∃ z', ts.foldlM step z = .ok z' ∧ z'.opened = 0 ∧ w = z'.above y := by
  induction ts generalizing z with
  | nil =>
    cases h
    exact ⟨z, rfl, hts, rfl⟩
  | cons t ts ih =>
    obtain ⟨w₁, hstep, hrest⟩ := exists_step_of_foldlM_cons h
    obtain ⟨k, hk, hclosed⟩ := closes_cons_iff.1 hts
    have hopen : t = .rightParen → z.opened ≠ 0 := by
      rintro rfl
      have hcount : k + 1 = z.opened := by simpa using hk
      omega
    obtain ⟨z₁, hz₁, rfl⟩ := exists_step_of_above hstep hopen
    obtain rfl : k = z₁.opened := by
      have hopened := opened_step hz₁
      omega
    obtain ⟨z', hrun, hzero, hw⟩ := ih hrest hclosed
    exact ⟨z', by rw [foldlM_cons_of_ok hz₁, hrun], hzero, hw⟩

/-- A group that is taken in has a postfix order of its own, and puts it out. -/
theorem exists_program_of_run_grouped (h : (grouped ms).foldlM step y = .ok w)
    (hms : Closes 0 ms) : ∃ block, toPostfix ms = .ok block ∧ w = (y.emit block).applyFunction := by
  have hinside : (ms ++ [Token.rightParen]).foldlM step (above {} y) = .ok w := by
    rw [← foldlM_cons_of_ok (step_leftParen_above y)]
    exact h
  obtain ⟨w₁, hrun, -⟩ := exists_run_of_foldlM_append hinside
  obtain ⟨z, hz, hzero, -⟩ := exists_run_of_above hrun hms
  obtain ⟨block, hfinish⟩ : ∃ block, z.finish = .ok block := by
    rcases z.finish_cases with ⟨hpos, -⟩ | ⟨-, hok⟩
    · omega
    · exact hok
  have hblock : toPostfix ms = .ok block := toPostfix_eq_ok_iff.2 ⟨z, hz, hfinish⟩
  have hgroup := run_grouped hblock y
  rw [h] at hgroup
  cases hgroup
  exact ⟨block, hblock, rfl⟩

end Yard

/-! ## Programs -/

/-- The postfix order of a group is a part of the program, and the operands before it are those before
the group. -/
theorem exists_block_of_toPostfix (h : toPostfix (us ++ (grouped ms ++ vs)) = .ok program)
    (hms : Closes 0 ms) :
    ∃ pre block post, program = pre ++ (block ++ post) ∧ toPostfix ms = .ok block ∧
      operands pre = operands us := by
  obtain ⟨y, hrun, hfinish⟩ := toPostfix_eq_ok_iff.1 h
  obtain ⟨y₁, hbefore, hrest⟩ := exists_run_of_foldlM_append hrun
  obtain ⟨y₂, hgroup, hafter⟩ := exists_run_of_foldlM_append hrest
  obtain ⟨block, hblock, rfl⟩ := Yard.exists_program_of_run_grouped hgroup hms
  have hgrouped : (y₁.emit block).output.toList <+: program :=
    ((Yard.output_prefix_applyFunction _).trans (Yard.output_prefix_run hafter)).trans
      (Yard.output_prefix_finish hfinish)
  have hemitted : (y₁.emit block).output.toList = y₁.output.toList ++ block := by
    simp [Yard.emit]
  rw [hemitted] at hgrouped
  obtain ⟨post, rfl⟩ := hgrouped
  have hoperands : operands y₁.output.toList = operands us := Yard.operandsOut_run hbefore
  exact ⟨y₁.output.toList, block, post, by rw [List.append_assoc], hblock, hoperands⟩

theorem filter_isParen_grouped (us ms vs : List Token) :
    (us ++ (grouped ms ++ vs)).filter (!·.isParen) =
      us.filter (!·.isParen) ++ (ms.filter (!·.isParen) ++ vs.filter (!·.isParen)) := by
  simp [grouped, Token.isParen]

theorem operands_grouped (us ms vs : List Token) :
    operands (us ++ (grouped ms ++ vs)) = operands us ++ (operands ms ++ operands vs) := by
  simp [grouped, operands, Token.isOperand]

/-- A program has no parentheses. It has the other tokens of its infix order, each as often, and the
operands among them in the same order. The tokens between a parenthesis and its partner stand side by
side, in the order that they have on their own; the other tokens stand around them, with the operands
before the group before it and those after the group after it. -/
theorem toPostfix_conserves (h : toPostfix ts = .ok program) :
    (∀ t ∈ program, t.isParen = false) ∧ program.Perm (ts.filter (!·.isParen)) ∧
      operands program = operands ts ∧
      ∀ us ms vs, ts = us ++ (grouped ms ++ vs) → Closes 0 ms →
        ∃ pre block post, program = pre ++ (block ++ post) ∧ toPostfix ms = .ok block ∧
          block.Perm (ms.filter (!·.isParen)) ∧
          (pre ++ post).Perm ((us ++ vs).filter (!·.isParen)) ∧
          operands pre = operands us ∧ operands post = operands vs := by
  have hperm := perm_of_toPostfix h
  have hoperands := operands_of_toPostfix h
  refine ⟨?_, hperm, hoperands, ?_⟩
  · intro t ht
    have hmem := List.mem_filter.1 (hperm.subset ht)
    simpa using hmem.2
  · rintro us ms vs rfl hms
    obtain ⟨pre, block, post, rfl, hblock, hpre⟩ := exists_block_of_toPostfix h hms
    have hinside := perm_of_toPostfix hblock
    refine ⟨pre, block, post, rfl, hblock, hinside, ?_, hpre, ?_⟩
    · -- The group is the same on both sides, so the rest is.
      rw [← List.perm_append_left_iff block, List.filter_append]
      calc block ++ (pre ++ post)
        _ ~ pre ++ (block ++ post) := List.perm_append_comm_assoc _ _ _
        _ ~ us.filter (!·.isParen) ++ (ms.filter (!·.isParen) ++ vs.filter (!·.isParen)) := by
          rw [← filter_isParen_grouped]
          exact hperm
        _ ~ ms.filter (!·.isParen) ++ (us.filter (!·.isParen) ++ vs.filter (!·.isParen)) :=
          List.perm_append_comm_assoc _ _ _
        _ ~ block ++ (us.filter (!·.isParen) ++ vs.filter (!·.isParen)) :=
          hinside.symm.append_right _
    · rw [operands_append, operands_append, operands_grouped, hpre,
        operands_of_toPostfix hblock] at hoperands
      exact List.append_cancel_left (List.append_cancel_left hoperands)

/-- The tokens of `sin(x + y)^3`. -/
def sineCubed : List Token :=
  [.function "sin", .leftParen, .var "x", .operator "+", .var "y", .rightParen, .operator "^",
    .number 3]

/-- The tokens of `2 * (sin(x + y)^3) / z`. -/
def scaledSineCubed : List Token :=
  [.number 2, Token.times] ++ (grouped sineCubed ++ [.operator "/", .var "z"])

/-- A group with a group of its own, after a function that applies to the inner one. -/
theorem toPostfix_conserves_nested :
    toPostfix scaledSineCubed = .ok [.number 2, .var "x", .var "y", .operator "+",
      .function "sin", .number 3, .operator "^", Token.times, .var "z", .operator "/"] ∧
    Closes 0 sineCubed ∧
    ∃ pre post : List Token,
      [.number 2, .var "x", .var "y", .operator "+", .function "sin", .number 3, .operator "^",
          Token.times, .var "z", .operator "/"] =
        pre ++ ([.var "x", .var "y", .operator "+", .function "sin", .number 3, .operator "^"] ++
          post) ∧
      operands pre = [.number 2] ∧ operands post = [.var "z"] := by
  have hprogram : toPostfix scaledSineCubed = .ok [.number 2, .var "x", .var "y", .operator "+",
      .function "sin", .number 3, .operator "^", Token.times, .var "z", .operator "/"] := by
    decide +kernel
  have hgroup : toPostfix sineCubed = .ok [.var "x", .var "y", .operator "+", .function "sin",
      .number 3, .operator "^"] := by decide +kernel
  have hcloses : Closes 0 sineCubed := ⟨0, rfl, rfl⟩
  obtain ⟨pre, block, post, heq, hblock, -, -, hpre, hpost⟩ :=
    (toPostfix_conserves hprogram).2.2.2 _ _ _ rfl hcloses
  rw [hgroup] at hblock
  cases hblock
  exact ⟨hprogram, hcloses, pre, post, heq, hpre, hpost⟩

end Plotter
