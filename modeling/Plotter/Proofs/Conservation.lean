import Mathlib.Data.List.Perm.Basic
import Plotter.Expression.Basic
import Plotter.Proofs.Reordering
import Plotter.Proofs.Tree

/-!
# Nothing is lost in the yard

The tokens that the yard holds, put out or waiting, are those that it has taken in, apart from the
parentheses, and the opening parentheses that wait are those without a partner so far. A program is
therefore a rearrangement of its infix tokens, whose parentheses match. Since a sound program has
one operand more than it has operators, so have the infix tokens.
-/

namespace Plotter

/-- Whether the token is a parenthesis. -/
def Token.isParen : Token → Bool
  | .leftParen | .rightParen => true
  | _ => false

/-- What a token adds to the number of operands less the number of operators. -/
def Token.weight : Token → Int
  | .number _ | .var _ => 1
  | .operator _ => -1
  | .function _ | .leftParen | .rightParen => 0

/-- The number of operands less the number of operators. -/
def surplus : List Token → Int
  | [] => 0
  | t :: ts => t.weight + surplus ts

/-- The parentheses among the tokens close the `n` that are open before them, and one another. -/
def Closes : Nat → List Token → Prop
  | n, [] => n = 0
  | n, .leftParen :: ts => Closes (n + 1) ts
  | n, .rightParen :: ts => ∃ m, n = m + 1 ∧ Closes m ts
  | n, .number _ :: ts => Closes n ts
  | n, .var _ :: ts => Closes n ts
  | n, .function _ :: ts => Closes n ts
  | n, .operator _ :: ts => Closes n ts

/-- The first token opens a parenthesis, closes one, or leaves them as they are. -/
theorem closes_cons_iff {n : Nat} {t : Token} {ts : List Token} :
    Closes n (t :: ts) ↔
      ∃ m, m + [t].count .rightParen = n + [t].count .leftParen ∧ Closes m ts := by
  cases t with
  | number _ | var _ | function _ | operator _ => simp [Closes]
  | leftParen => simp [Closes]
  | rightParen => simp [Closes, eq_comm]

open scoped List

namespace Yard

variable {y y' : Yard} {t : Token} {ts program : List Token} {entries rest : List Pending}

/-- The entries of a stack that are not parentheses. -/
def waiting (stack : List Pending) : List Pending := stack.filter (· ≠ .opening)

/-- The tokens in the yard, put out or waiting. -/
def held (y : Yard) : List Token := y.output.toList ++ (waiting y.stack).map Pending.token

/-- The number of parentheses that wait for their partners. -/
def opened (y : Yard) : Nat := y.stack.count .opening

/-! ## Releasing -/

theorem waiting_eq_self (h : .opening ∉ entries) : waiting entries = entries := by
  rw [waiting, List.filter_eq_self]
  intro e he
  simpa using fun heq : e = .opening => h (heq ▸ he)

@[simp]
theorem waiting_append (entries rest : List Pending) :
    waiting (entries ++ rest) = waiting entries ++ waiting rest := by
  simp [waiting]

/-- Releasing entries keeps all tokens that are not parentheses. -/
theorem held_release (h : waiting y.stack = entries ++ waiting rest) :
    (y.release entries rest).held = y.held := by
  rw [held, held, h]
  simp [release]

/-- Applying a function releases some entries, none of them a parenthesis. -/
theorem exists_applyFunction (y : Yard) :
    ∃ entries rest, y.stack = entries ++ rest ∧ .opening ∉ entries ∧
      y.applyFunction = y.release entries rest := by
  have hnone : y = y.release [] y.stack := by simp [release]
  cases hstack : y.stack with
  | nil => exact ⟨[], [], rfl, by simp, by simpa [applyFunction, hstack] using hnone⟩
  | cons top rest =>
    by_cases htop : top.takesGroup = true
    · refine ⟨[top], rest, rfl, ?_, by simp [applyFunction, hstack, htop]⟩
      simpa using (ne_opening_of_takesGroup htop).symm
    · refine ⟨[], top :: rest, rfl, by simp, ?_⟩
      rw [hstack] at hnone
      simpa [applyFunction, hstack, htop] using hnone

theorem held_applyFunction (y : Yard) : y.applyFunction.held = y.held := by
  obtain ⟨entries, rest, hstack, hne, heq⟩ := exists_applyFunction y
  rw [heq, held_release]
  rw [hstack, waiting_append, waiting_eq_self hne]

theorem opened_applyFunction (y : Yard) : y.applyFunction.opened = y.opened := by
  obtain ⟨entries, rest, hstack, hne, heq⟩ := exists_applyFunction y
  rw [heq, opened, opened, hstack, List.count_append, List.count_eq_zero_of_not_mem hne]
  simp [release]

/-- Closing a parenthesis releases what lies above the open one. -/
theorem exists_of_close (h : y.close = .ok y') :
    ∃ group below, y.stack = group ++ .opening :: below ∧ .opening ∉ group ∧
      y' = (y.release group below).applyFunction := by
  by_cases hmem : .opening ∈ y.stack
  · obtain ⟨group, below, hstack, hgroup⟩ := List.eq_append_cons_of_mem hmem
    rw [close_of_split hstack hgroup] at h
    cases h
    exact ⟨group, below, hstack, hgroup, rfl⟩
  · rw [close_of_not_mem hmem] at h
    cases h

theorem held_close (h : y.close = .ok y') : y'.held = y.held := by
  obtain ⟨group, below, hstack, hgroup, rfl⟩ := exists_of_close h
  rw [held_applyFunction, held_release]
  rw [hstack, waiting_append, waiting_eq_self hgroup]
  simp [waiting]

/-- It closes one. -/
theorem opened_close (h : y.close = .ok y') : y.opened = y'.opened + 1 := by
  obtain ⟨group, below, hstack, hgroup, rfl⟩ := exists_of_close h
  rw [opened_applyFunction, opened, opened, hstack, List.count_append,
    List.count_eq_zero_of_not_mem hgroup]
  simp [release]

theorem opening_not_mem_takeWhile (op : BinaryOp) (stack : List Pending) :
    .opening ∉ stack.takeWhile (Pending.yields op) := by
  intro hmem
  have hyields := List.mem_takeWhile_imp hmem
  cases hyields

/-- An operator is added to the tokens in the yard. -/
theorem held_pushOperator (y : Yard) (op : BinaryOp) :
    (y.pushOperator op).held.Perm (y.held ++ [.operator op.symbol]) := by
  let entries := y.stack.takeWhile (Pending.yields op)
  let rest := y.stack.dropWhile (Pending.yields op)
  have hstack : y.stack = entries ++ rest := List.takeWhile_append_dropWhile.symm
  have hwaiting : waiting y.stack = entries ++ waiting rest := by
    rw [hstack, waiting_append, waiting_eq_self (opening_not_mem_takeWhile op y.stack)]
  have hheld : y.held = (y.output.toList ++ entries.map Pending.token) ++
      (waiting rest).map Pending.token := by
    rw [held, hwaiting, List.map_append, List.append_assoc]
  have hpushed : (y.pushOperator op).held = (y.output.toList ++ entries.map Pending.token) ++
      .operator op.symbol :: (waiting rest).map Pending.token := by
    simp [pushOperator, release, held, waiting, Pending.token, entries, rest]
  rw [hpushed, hheld, List.append_assoc _ _ [_]]
  exact (List.perm_append_singleton _ _).symm.append_left _

theorem opened_pushOperator (y : Yard) (op : BinaryOp) :
    (y.pushOperator op).opened = y.opened := by
  have hnone := List.count_eq_zero_of_not_mem (opening_not_mem_takeWhile op y.stack)
  have hsplit : y.opened = (y.stack.takeWhile (Pending.yields op)).count .opening +
      (y.stack.dropWhile (Pending.yields op)).count .opening := by
    rw [← List.count_append, List.takeWhile_append_dropWhile, opened]
  rw [hsplit, hnone]
  simp [pushOperator, release, opened]

/-! ## Steps -/

/-- A step adds its token to those held, unless it is a parenthesis. -/
theorem held_step (h : y.step t = .ok y') :
    y'.held.Perm (y.held ++ [t].filter (!·.isParen)) := by
  cases t with
  | number _ | var _ =>
    cases h
    simpa [held, Token.isParen] using
      (List.perm_append_singleton _ _).symm.append_left y.output.toList
  | function name =>
    cases h
    simpa [held, waiting, Token.isParen, Pending.token] using
      (List.perm_append_singleton _ _).symm.append_left y.output.toList
  | operator symbol =>
    obtain ⟨op, rfl, rfl⟩ := exists_of_step_operator h
    exact held_pushOperator y op
  | leftParen =>
    cases h
    simp [held, waiting, Token.isParen]
  | rightParen =>
    rw [held_close h]
    simp [Token.isParen]

/-- Of the parentheses that wait, a step adds one or takes one off if its token is a parenthesis,
and leaves them alone otherwise. -/
theorem opened_step (h : y.step t = .ok y') :
    y'.opened + [t].count .rightParen = y.opened + [t].count .leftParen := by
  cases t with
  | number _ | var _ =>
    cases h
    simp [opened]
  | function _ | leftParen =>
    cases h
    simp [opened]
  | operator symbol =>
    obtain ⟨op, -, rfl⟩ := exists_of_step_operator h
    simp [opened_pushOperator]
  | rightParen => simp [opened_close h]

/-- A run over tokens that leaves no parenthesis open is a run over tokens that close those that
were. -/
theorem closes_of_run (h : ts.foldlM step y = .ok y') (hend : y'.opened = 0) :
    Closes y.opened ts := by
  induction ts generalizing y with
  | nil =>
    cases h
    exact hend
  | cons t ts ih =>
    obtain ⟨z, hstep, hrest⟩ := exists_step_of_foldlM_cons h
    exact closes_cons_iff.2 ⟨z.opened, opened_step hstep, ih hrest⟩

/-- A run holds what it has taken in, apart from the parentheses. -/
theorem held_run (h : ts.foldlM step y = .ok y') :
    y'.held.Perm (y.held ++ ts.filter (!·.isParen)) := by
  induction ts generalizing y with
  | nil =>
    cases h
    simp
  | cons t ts ih =>
    obtain ⟨z, hstep, hrest⟩ := exists_step_of_foldlM_cons h
    calc y'.held
      _ ~ z.held ++ ts.filter (!·.isParen) := ih hrest
      _ ~ (y.held ++ [t].filter (!·.isParen)) ++ ts.filter (!·.isParen) :=
        (held_step hstep).append_right _
      _ = y.held ++ (t :: ts).filter (!·.isParen) := by
        rw [List.append_assoc, ← List.filter_append, List.singleton_append]

/-- At the end no parenthesis is open and all tokens have been put out. -/
theorem of_finish (h : y.finish = .ok program) : y.opened = 0 ∧ program = y.held := by
  obtain ⟨hmem, rfl⟩ := finish_eq_ok_iff.1 h
  refine ⟨List.count_eq_zero_of_not_mem hmem, ?_⟩
  rw [held, waiting_eq_self hmem]
  simp [release]

end Yard

/-! ## Programs -/

variable {t : Token} {ts program : List Token}

/-- A program has the tokens of its infix order, without the parentheses, in another order. -/
theorem perm_of_toPostfix (h : toPostfix ts = .ok program) :
    program.Perm (ts.filter (!·.isParen)) := by
  obtain ⟨y, hrun, hfinish⟩ := toPostfix_eq_ok_iff.1 h
  obtain ⟨-, rfl⟩ := Yard.of_finish hfinish
  exact Yard.held_run hrun

/-- A list that can be reordered is balanced. -/
theorem closes_of_toPostfix (h : toPostfix ts = .ok program) : Closes 0 ts := by
  obtain ⟨y, hrun, hfinish⟩ := toPostfix_eq_ok_iff.1 h
  exact Yard.closes_of_run hrun (Yard.of_finish hfinish).1

@[simp]
theorem surplus_nil : surplus [] = 0 := rfl

@[simp]
theorem surplus_cons (t : Token) (ts : List Token) : surplus (t :: ts) = t.weight + surplus ts :=
  rfl

@[simp]
theorem surplus_append (ss ts : List Token) : surplus (ss ++ ts) = surplus ss + surplus ts := by
  induction ss with
  | nil => simp
  | cons s ss ih =>
    rw [List.cons_append, surplus_cons, surplus_cons, ih]
    omega

theorem weight_of_isParen (h : t.isParen = true) : t.weight = 0 := by
  cases t with
  | leftParen | rightParen => rfl
  | number _ | var _ | function _ | operator _ => cases h

/-- Parentheses do not count for the surplus. -/
theorem surplus_filter (ts : List Token) : surplus (ts.filter (!·.isParen)) = surplus ts := by
  induction ts with
  | nil => rfl
  | cons t ts ih =>
    by_cases hparen : t.isParen = true
    · simp [hparen, ih, weight_of_isParen hparen]
    · simp [hparen, ih]

/-- Neither does the order. -/
theorem surplus_of_perm {ss : List Token} (h : ss.Perm ts) : surplus ss = surplus ts := by
  induction h with
  | nil => rfl
  | cons t _ ih => rw [surplus_cons, surplus_cons, ih]
  | swap s t ts =>
    simp only [surplus_cons]
    omega
  | trans _ _ ih ih' => exact ih.trans ih'

/-- A tree has one operand more than operators. -/
theorem surplus_postorder (t : Tree) : surplus t.postorder = 1 := by
  induction t with
  | number value => rfl
  | var name => rfl
  | unary f argument ih => simp [Tree.postorder, Token.weight, ih]
  | binary op left right ihl ihr => simp [Tree.postorder, Token.weight, ihl, ihr]

/-- What compiles has matching parentheses and one operand more than it has operators. -/
theorem closes_and_surplus_of_programOf (h : Expression.programOf ts = .ok program) :
    Closes 0 (Expression.infixTokens ts) ∧ surplus (Expression.infixTokens ts) = 1 := by
  obtain ⟨horder, hcheck⟩ := Expression.programOf_eq_ok_iff.1 h
  obtain ⟨tree, rfl⟩ := Tree.exists_postorder_of_check hcheck
  refine ⟨closes_of_toPostfix horder, ?_⟩
  rw [← surplus_filter, ← surplus_of_perm (perm_of_toPostfix horder)]
  exact surplus_postorder tree

end Plotter
