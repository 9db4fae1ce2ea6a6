import Mathlib.Data.List.Chain
import Plotter.Proofs.Groups
import Plotter.Proofs.Signs

/-!
# Groups in the place of a variable

The compiler treats a group and a variable differently: a product is meant before or after the one
and not the other, a minus sign that opens a group is a negation, and a closing parenthesis applies
the function before the group at once. Nevertheless, every pass does with the tokens around a group
what it does around a variable, as long as no number follows the variable directly: a product is
meant after a variable there, but not after a parenthesis.
-/

namespace Plotter

open Infix

/-- The tokens in which `other` takes the place of a variable. -/
def substitute (name : String) (other ts : List Token) : List Token :=
  ts.flatMap fun t => if t = .var name then other else [t]

/-- The variable is nowhere followed directly by a number. -/
def Apart (name : String) (ts : List Token) : Prop :=
  ts.IsChain fun s t => s = .var name → ∀ value, t ≠ .number value

variable {name : String} {initial : Bool} {last last' t : Token}
  {ss ts us other program : List Token}

/-! ## Tokens -/

@[simp]
theorem substitute_nil : substitute name other [] = [] := rfl

@[simp]
theorem substitute_append (ss ts : List Token) :
    substitute name other (ss ++ ts) = substitute name other ss ++ substitute name other ts :=
  List.flatMap_append

@[simp]
theorem substitute_cons_var (ts : List Token) :
    substitute name other (.var name :: ts) = other ++ substitute name other ts := by
  rw [substitute, List.flatMap_cons, if_pos rfl]
  rfl

theorem substitute_cons_of_ne (h : t ≠ .var name) (ts : List Token) :
    substitute name other (t :: ts) = t :: substitute name other ts := by
  rw [substitute, List.flatMap_cons, if_neg h]
  rfl

/-- Without the variable the tokens stay as they are. -/
theorem substitute_eq_self (h : .var name ∉ ts) : substitute name other ts = ts := by
  induction ts with
  | nil => rfl
  | cons t ts ih =>
    obtain ⟨ht, hts⟩ : t ≠ .var name ∧ .var name ∉ ts := by simpa [eq_comm] using h
    rw [substitute_cons_of_ne ht, ih hts]

/-! ## Signs -/

/-- A group begins with a parenthesis where the variable was. -/
theorem exists_substitute_cons (name : String) (us : List Token) (t : Token) (ts : List Token) :
    ∃ rest, substitute name (grouped us) (t :: ts) =
      (if t = .var name then .leftParen else t) :: rest := by
  by_cases ht : t = .var name
  · subst ht
    exact ⟨_, by rw [substitute_cons_var, if_pos rfl]; rfl⟩
  · exact ⟨_, by rw [substitute_cons_of_ne ht, if_neg ht]⟩

/-- If a product is meant after the one operand where it is meant after the other, then what follows
is prepared alike. -/
theorem prepareAfter_substitute
    (h : ∀ initial, prepare initial (substitute name (grouped ss) ts) =
      substitute name (grouped us) (prepare initial ts))
    (hlast : ∀ t ∈ ts.head?,
      impliesProduct last' (if t = .var name then .leftParen else t) = impliesProduct last t) :
    prepareAfter last' (substitute name (grouped ss) ts) =
      substitute name (grouped us) (prepareAfter last ts) := by
  cases ts with
  | nil => rfl
  | cons t ts =>
    have hproduct := hlast t rfl
    obtain ⟨rest, hrest⟩ := exists_substitute_cons name ss t ts
    rw [hrest] at h ⊢
    cases hmeant : impliesProduct last t with
    | true =>
      rw [hmeant] at hproduct
      rw [prepareAfter_of_impliesProduct hmeant, prepareAfter_of_impliesProduct hproduct, h,
        substitute_cons_of_ne (by simp [Token.times])]
    | false =>
      rw [hmeant] at hproduct
      rw [prepareAfter_of_not_impliesProduct hmeant, prepareAfter_of_not_impliesProduct hproduct, h]

/-- A product is meant before a group if and only if it is meant before a variable. -/
theorem impliesProduct_leftParen (last : Token) (name : String) :
    impliesProduct last .leftParen = impliesProduct last (.var name) := by
  cases last <;> rfl

/-- After them the same holds, but for a number. -/
theorem impliesProduct_rightParen (name : String) (h : ∀ value, t ≠ .number value) :
    impliesProduct .rightParen t = impliesProduct (.var name) t := by
  cases t with
  | number value => exact absurd rfl (h value)
  | var _ | function _ | operator _ | leftParen | rightParen => rfl

/-- The two passes do with the tokens around a group what they do around the variable, and with the
tokens of the group what they do with them alone. -/
theorem prepare_substitute (h : Apart name ts) (initial : Bool) :
    prepare initial (substitute name (grouped ss) ts) =
      substitute name (grouped (prepare true ss)) (prepare initial ts) := by
  induction ts generalizing initial with
  | nil => rfl
  | cons t ts ih =>
    have ih := ih (List.IsChain.tail h)
    -- Before a group a product is meant where it is meant before a variable.
    have hafter (last : Token) : prepareAfter last (substitute name (grouped ss) ts) =
        substitute name (grouped (prepare true ss)) (prepareAfter last ts) := by
      refine prepareAfter_substitute ih fun u _ => ?_
      split_ifs with hu
      · rw [hu, impliesProduct_leftParen last name]
      · rfl
    by_cases hvar : t = .var name
    · subst hvar
      -- After a group this holds for all tokens but numbers, and none of these follows.
      have hgroup : prepareAfter .rightParen (substitute name (grouped ss) ts) =
          substitute name (grouped (prepare true ss)) (prepareAfter (.var name) ts) := by
        refine prepareAfter_substitute ih fun u hu => ?_
        have hnumber : ∀ value, u ≠ .number value := by
          obtain ⟨rest, rfl⟩ := List.head?_eq_some_iff.1 hu
          exact (List.isChain_cons_cons.1 h).1 rfl
        split_ifs with hu
        · rw [hu]
          rfl
        · exact impliesProduct_rightParen name hnumber
      rw [substitute_cons_var, prepare_operand rfl, substitute_cons_var, ← hgroup, grouped, grouped]
      simp [prepare_append_rightParen]
    · rw [substitute_cons_of_ne hvar]
      cases t with
      | number _ | var _ | rightParen =>
        rw [prepare_operand rfl, prepare_operand rfl, hafter, substitute_cons_of_ne hvar]
      | function _ =>
        rw [prepare_function, prepare_function, ih, substitute_cons_of_ne hvar]
      | leftParen =>
        rw [prepare_leftParen, prepare_leftParen, ih, substitute_cons_of_ne hvar]
      | operator symbol =>
        by_cases hminus : initial = false ∨ symbol ≠ "-"
        · rw [prepare_operator hminus, prepare_operator hminus, ih, substitute_cons_of_ne hvar]
        · obtain ⟨rfl, rfl⟩ : initial = true ∧ symbol = "-" := by simpa using hminus
          rw [← Token.minus, prepare_minus, prepare_minus, ih,
            substitute_cons_of_ne (by simp [Token.negation])]

/-! ## What follows a variable -/

/-- Whether the token can follow an operand once all signs are there. -/
def followsOperand : Token → Bool
  | .operator _ | .rightParen => true
  | _ => false

/-- What follows a variable after the passes is no operand. -/
theorem followsOperand_head?_prepareAfter_var (name : String) (ts : List Token) :
    ∀ t ∈ (prepareAfter (.var name) ts).head?, followsOperand t = true := by
  cases ts with
  | nil => simp
  | cons t ts =>
    cases t with
    | number _ | var _ | function _ | leftParen =>
      rw [prepareAfter_of_impliesProduct rfl]
      simp [followsOperand, Token.times]
    | operator _ =>
      rw [prepareAfter_operator]
      simp [followsOperand]
    | rightParen =>
      rw [prepareAfter_rightParen]
      simp [followsOperand]

/-- After a variable the two passes leave only operators and closing parentheses. -/
theorem isChain_prepare (name : String) (ts : List Token) (initial : Bool) :
    (prepare initial ts).IsChain fun s t => s = .var name → followsOperand t = true := by
  induction ts generalizing initial with
  | nil => exact .nil
  | cons t ts ih =>
    have hafter (last : Token) :
        (prepareAfter last ts).IsChain fun s t => s = .var name → followsOperand t = true := by
      cases ts with
      | nil => exact .nil
      | cons u ts =>
        cases hmeant : impliesProduct last u with
        | true =>
          rw [prepareAfter_of_impliesProduct hmeant]
          exact (ih true).cons fun _ _ h => by cases h
        | false =>
          rw [prepareAfter_of_not_impliesProduct hmeant]
          exact ih false
    cases t with
    | number _ | rightParen =>
      rw [prepare_operand rfl]
      exact (hafter _).cons fun _ _ h => by cases h
    | var other =>
      rw [prepare_operand rfl]
      exact (hafter _).cons fun u hu _ => followsOperand_head?_prepareAfter_var other ts u hu
    | function _ =>
      rw [prepare_function]
      exact (ih false).cons fun _ _ h => by cases h
    | leftParen =>
      rw [prepare_leftParen]
      exact (ih true).cons fun _ _ h => by cases h
    | operator symbol =>
      by_cases hminus : initial = false ∨ symbol ≠ "-"
      · rw [prepare_operator hminus]
        exact (ih true).cons fun _ _ h => by cases h
      · obtain ⟨rfl, rfl⟩ : initial = true ∧ symbol = "-" := by simpa using hminus
        rw [← Token.minus, prepare_minus]
        exact (ih false).cons fun _ _ h => by cases h

/-! ## In the yard -/

namespace Yard

variable {y y' z : Yard} {entries stack : List Pending}

/-- The program that comes out if the tokens are taken in and there are no more. -/
def complete (y : Yard) (ts : List Token) : Except OrderError (List Token) :=
  match ts.foldlM step y with
  | .error e => .error e
  | .ok y => y.finish

/-- The state in which a program has been put out for every variable of the name. -/
def substitute (name : String) (other : List Token) (y : Yard) : Yard :=
  ⟨(Plotter.substitute name other y.output.toList).toArray, y.stack⟩

theorem complete_cons_of_ok (h : y.step t = .ok y') (ts : List Token) :
    y.complete (t :: ts) = y'.complete ts := by
  rw [complete, complete, foldlM_cons_of_ok h]

theorem complete_append_of_run (h : ss.foldlM step y = .ok y') (ts : List Token) :
    y.complete (ss ++ ts) = y'.complete ts := by
  rw [complete, complete, foldlM_append_of_ok h]

/-- Interchangeable states give the same program if what follows is no operand. -/
theorem complete_eq_of_interchangeable (h : Interchangeable 3 y z)
    (hts : ∀ t ∈ ts.head?, followsOperand t = true) : y.complete ts = z.complete ts := by
  cases ts with
  | nil => exact h.ending
  | cons t ts =>
    have hstep : y.step t = z.step t := by
      cases t with
      | number _ | var _ | function _ | leftParen => cases hts _ rfl
      | rightParen => exact h.paren
      | operator symbol =>
        simp only [step]
        split
        · rename_i op _
          exact congrArg Except.ok (h.operator op (by cases op <;> decide))
        · rfl
    rw [complete, complete, List.foldlM_cons, List.foldlM_cons, hstep]

theorem release_substitute (y : Yard) (entries stack : List Pending) :
    (y.release entries stack).substitute name other =
      (y.substitute name other).release entries stack := by
  have hentries : Plotter.substitute name other (entries.map Pending.token) =
      entries.map Pending.token := by
    refine substitute_eq_self fun hmem => ?_
    obtain ⟨e, -, he⟩ := List.mem_map.1 hmem
    cases e <;> cases he
  exact eq_of_toList (by simp [release, substitute, hentries]) rfl

theorem applyFunction_substitute (y : Yard) :
    (y.substitute name other).applyFunction = y.applyFunction.substitute name other := by
  obtain ⟨out, stack⟩ := y
  cases stack with
  | nil => rfl
  | cons top rest =>
    show (if top.takesGroup then _ else _) = substitute name other (if top.takesGroup then _ else _)
    split
    · exact (release_substitute ⟨out, top :: rest⟩ [top] rest).symm
    · rfl

/-- A step over any other token commutes with the substitution in the yard. -/
theorem step_substitute (h : y.step t = .ok y') (ht : t ≠ .var name) :
    (y.substitute name other).step t = .ok (y'.substitute name other) := by
  cases t with
  | number _ | var _ =>
    cases h
    refine congrArg Except.ok (eq_of_toList ?_ rfl)
    simp [substitute, substitute_cons_of_ne ht]
  | function _ | leftParen =>
    cases h
    rfl
  | operator symbol =>
    obtain ⟨op, rfl, rfl⟩ := exists_of_step_operator h
    rw [step_operator, pushOperator, pushOperator, release_substitute]
    rfl
  | rightParen =>
    obtain ⟨group, below, hstack, hgroup, rfl⟩ := exists_of_close h
    have hclose := close_of_split (y := y.substitute name other) hstack hgroup
    rw [← applyFunction_substitute, release_substitute]
    exact hclose

/-- So does the end. -/
theorem finish_substitute (h : y.finish = .ok program) :
    (y.substitute name other).finish = .ok (Plotter.substitute name other program) := by
  obtain ⟨hopening, rfl⟩ := finish_eq_ok_iff.1 h
  have hrelease : (y.substitute name other).release y.stack [] =
      (y.release y.stack []).substitute name other := (release_substitute y y.stack []).symm
  refine finish_eq_ok_iff.2 ⟨hopening, ?_⟩
  show _ = ((y.substitute name other).release y.stack []).output.toList
  rw [hrelease]
  simp [substitute]

theorem exists_step_of_complete_cons (h : y.complete (t :: ts) = .ok program) :
    ∃ y', y.step t = .ok y' ∧ y'.complete ts = .ok program := by
  cases hstep : y.step t with
  | error e =>
    rw [complete, foldlM_cons_of_error hstep] at h
    cases h
  | ok y' => exact ⟨y', rfl, (complete_cons_of_ok hstep ts).symm.trans h⟩

/-- With a group for every variable, the program of the group comes out for every variable. A group
lets the function before it be applied at once; but so does whatever follows the variable. -/
theorem complete_substitute (hgroup : toPostfix us = .ok other)
    (hchain : ts.IsChain fun s t => s = .var name → followsOperand t = true)
    (h : y.complete ts = .ok program) :
    (y.substitute name other).complete (Plotter.substitute name (grouped us) ts) =
      .ok (Plotter.substitute name other program) := by
  induction ts generalizing y with
  | nil => exact finish_substitute h
  | cons t ts ih =>
    obtain ⟨y', hstep, hrest⟩ := exists_step_of_complete_cons h
    have hcomplete := ih hchain.tail hrest
    by_cases hvar : t = .var name
    · subst hvar
      obtain rfl : y.emit [.var name] = y' := Except.ok.inj ((step_var y name).symm.trans hstep)
      have hemit : (y.emit [.var name]).substitute name other =
          (y.substitute name other).emit other :=
        eq_of_toList (by simp [substitute, emit]) rfl
      -- No group begins here, so what follows is what followed the variable.
      have hfollows : ∀ t ∈ (Plotter.substitute name (grouped us) ts).head?,
          followsOperand t = true := by
        cases ts with
        | nil => simp
        | cons t ts =>
          have ht := (List.isChain_cons_cons.1 hchain).1 rfl
          rw [substitute_cons_of_ne (by rintro rfl; cases ht)]
          simpa using ht
      rw [substitute_cons_var, complete_append_of_run (run_grouped hgroup _),
        complete_eq_of_interchangeable (interchangeable_applyFunction _) hfollows, ← hemit]
      exact hcomplete
    · rw [substitute_cons_of_ne hvar, complete_cons_of_ok (step_substitute hstep hvar)]
      exact hcomplete

end Yard

theorem toPostfix_substitute (hgroup : toPostfix us = .ok other)
    (hchain : ts.IsChain fun s t => s = .var name → followsOperand t = true)
    (h : toPostfix ts = .ok program) :
    toPostfix (substitute name (grouped us) ts) = .ok (substitute name other program) :=
  Yard.complete_substitute (y := {}) hgroup hchain h

end Plotter
