import Mathlib.Data.List.TakeWhile
import Plotter.Postfix.Basic
import Plotter.Proofs.Run

/-!
# The yard

Once an operand is complete, what may come next is an operator, a closing parenthesis or the end. An
entry that all of these would release may as well be released at once: the two states of the yard
are interchangeable.
-/

namespace Plotter.Yard

variable {y y' z w : Yard} {n m : Nat} {e : Pending} {out : Array Token} {stack : List Pending}

/-- Puts tokens out. -/
def emit (y : Yard) (ts : List Token) : Yard := { y with output := y.output ++ ts }

theorem eq_of_toList (hout : y.output.toList = z.output.toList) (hstack : y.stack = z.stack) :
    y = z := by
  cases y
  cases z
  simp_all [Array.toList_inj]

@[simp]
theorem emit_nil (y : Yard) : y.emit [] = y := eq_of_toList (by simp [emit]) rfl

/-- Tokens that are put out one after the other. -/
@[simp]
theorem emit_emit (y : Yard) (ss ts : List Token) : (y.emit ss).emit ts = y.emit (ss ++ ts) :=
  eq_of_toList (by simp [emit]) rfl

@[simp]
theorem emit_stack (y : Yard) (ts : List Token) : (y.emit ts).stack = y.stack := rfl

theorem release_cons (y : Yard) (e : Pending) (entries stack : List Pending) :
    y.release (e :: entries) stack = (y.emit [e.token]).release entries stack :=
  eq_of_toList (by simp [release, emit]) rfl

/-- Entries that are released in two portions. -/
theorem release_release (y : Yard) (group entries stack stack' : List Pending) :
    (y.release group stack).release entries stack' = y.release (group ++ entries) stack' :=
  eq_of_toList (by simp [release]) rfl

/-! ## Closing parentheses -/

/-- Releases the function at the top, if it applies to the group just closed. -/
def applyFunction (y : Yard) : Yard :=
  match y.stack with
  | top :: rest => if top.takesGroup then y.release [top] rest else y
  | [] => y

/-- A parenthesis cannot be closed if none is open. -/
theorem close_of_not_mem (h : .opening ∉ y.stack) : y.close = .error (.unmatched .right) := by
  have hdrop : y.stack.dropWhile (· ≠ .opening) = [] := by
    rw [List.dropWhile_eq_nil_iff]
    intro e he
    simpa using fun heq : e = .opening => h (heq ▸ he)
  rw [close, hdrop]

/-- Closing a parenthesis releases what lies above the open one, and then its function. -/
theorem close_of_split {group below : List Pending} (h : y.stack = group ++ .opening :: below)
    (hgroup : .opening ∉ group) : y.close = .ok (y.release group below).applyFunction := by
  have hall : ∀ e ∈ group, decide (e ≠ .opening) = true := by
    intro e he
    simpa using fun heq : e = .opening => hgroup (heq ▸ he)
  have htake : y.stack.takeWhile (· ≠ .opening) = group := by
    rw [h, List.takeWhile_append_of_pos hall]
    simp
  have hdrop : y.stack.dropWhile (· ≠ .opening) = .opening :: below := by
    rw [h, List.dropWhile_append_of_pos hall]
    simp
  rw [close, hdrop, htake]
  cases below with
  | nil => rfl
  | cons top rest =>
    show (if top.takesGroup then _ else _) = Except.ok (if top.takesGroup then _ else _)
    rw [release_release]
    split
    · rfl
    · rfl

/-! ## Interchangeable states -/

/-- The two states cannot be told apart by what may follow an operand: an operator of precedence at
most `n`, a closing parenthesis, or the end. -/
structure Interchangeable (n : Nat) (y z : Yard) : Prop where
  /-- An operator leads to the same state. -/
  operator : ∀ op : BinaryOp, op.rank.precedence ≤ n → y.pushOperator op = z.pushOperator op
  /-- A closing parenthesis leads to the same state. -/
  paren : y.close = z.close
  /-- The end leads to the same program. -/
  ending : y.finish = z.finish

namespace Interchangeable

theorem refl (n : Nat) (y : Yard) : Interchangeable n y y := ⟨fun _ _ => rfl, rfl, rfl⟩

theorem symm (h : Interchangeable n y z) : Interchangeable n z y :=
  ⟨fun op hop => (h.operator op hop).symm, h.paren.symm, h.ending.symm⟩

theorem trans (h : Interchangeable n y z) (h' : Interchangeable n z w) : Interchangeable n y w :=
  ⟨fun op hop => (h.operator op hop).trans (h'.operator op hop), h.paren.trans h'.paren,
    h.ending.trans h'.ending⟩

theorem mono (hmn : m ≤ n) (h : Interchangeable n y z) : Interchangeable m y z :=
  ⟨fun op hop => h.operator op (Nat.le_trans hop hmn), h.paren, h.ending⟩

end Interchangeable

/-- An entry at the top that yields to all operators of precedence at most `n` may be released
before they come. -/
theorem interchangeable_release (hne : e ≠ .opening)
    (hyields : ∀ op : BinaryOp, op.rank.precedence ≤ n → e.yields op = true)
    (out : Array Token) (stack : List Pending) :
    Interchangeable n ⟨out, e :: stack⟩ (emit ⟨out, stack⟩ [e.token]) := by
  have hrelease (entries rest : List Pending) :
      release ⟨out, e :: stack⟩ (e :: entries) rest =
        release (emit ⟨out, stack⟩ [e.token]) entries rest := release_cons _ _ _ _
  refine ⟨?_, ?_, ?_⟩
  · intro op hop
    rw [pushOperator, pushOperator, List.takeWhile_cons_of_pos (hyields op hop),
      List.dropWhile_cons_of_pos (hyields op hop), hrelease]
    rfl
  · by_cases hmem : .opening ∈ stack
    · obtain ⟨group, below, rfl, hgroup⟩ := List.eq_append_cons_of_mem hmem
      have hleft := close_of_split (y := ⟨out, (e :: group) ++ .opening :: below⟩) rfl
        (by simp [hne.symm, hgroup])
      have hright := close_of_split
        (y := emit ⟨out, group ++ .opening :: below⟩ [e.token]) rfl hgroup
      rw [hright, ← hrelease]
      exact hleft
    · rw [close_of_not_mem (by simp [hne.symm, hmem]), close_of_not_mem (by simpa using hmem)]
  · rw [finish, finish, hrelease]
    simp [hne.symm]

/-- Whatever takes a group yields to every operator. -/
theorem yields_of_takesGroup (h : e.takesGroup = true) (op : BinaryOp) : e.yields op = true := by
  cases e with
  | opening => cases h
  | operator _ => cases h
  | function name =>
    have hname : name ≠ negationName := by simpa [Pending.takesGroup] using h
    simp [Pending.yields, hname]

theorem ne_opening_of_takesGroup (h : e.takesGroup = true) : e ≠ .opening := by
  rintro rfl
  cases h

/-- The function that a closing parenthesis releases would be released by whatever comes next. -/
theorem interchangeable_applyFunction (y : Yard) : Interchangeable 3 y.applyFunction y := by
  obtain ⟨out, stack⟩ := y
  cases stack with
  | nil => exact .refl 3 _
  | cons top rest =>
    simp only [applyFunction]
    split_ifs with htop
    · have hne := ne_opening_of_takesGroup htop
      have heq : release ⟨out, top :: rest⟩ [top] rest = emit ⟨out, rest⟩ [top.token] :=
        eq_of_toList (by simp [release, emit]) rfl
      rw [heq]
      exact (interchangeable_release hne (fun op _ => yields_of_takesGroup htop op) out rest).symm
    · exact .refl 3 _

/-! ## Steps -/

theorem step_number (y : Yard) (value : Float) :
    y.step (.number value) = .ok (y.emit [.number value]) := by
  simp [step, emit]

theorem step_var (y : Yard) (name : String) : y.step (.var name) = .ok (y.emit [.var name]) := by
  simp [step, emit]

theorem step_operator (y : Yard) (op : BinaryOp) :
    y.step (.operator op.symbol) = .ok (y.pushOperator op) := by
  simp [step]

/-- A step over an operator that succeeds puts this operator on the stack. -/
theorem exists_of_step_operator {symbol : String} (h : y.step (.operator symbol) = .ok y') :
    ∃ op : BinaryOp, op.symbol = symbol ∧ y' = y.pushOperator op := by
  simp only [step] at h
  split at h
  · rename_i op hop
    cases h
    exact ⟨op, BinaryOp.symbol_of_ofSymbol? hop, rfl⟩
  · cases h

/-- An operator to which the top does not yield is put on it. -/
theorem pushOperator_of_not_yields {op : BinaryOp}
    (h : ∀ top ∈ y.stack.head?, top.yields op = false) :
    y.pushOperator op = ⟨y.output, .operator op :: y.stack⟩ := by
  rw [pushOperator]
  cases hstack : y.stack with
  | nil => simp [release]
  | cons top rest =>
    have htop : ¬ top.yields op = true := by simp [h top (by simp [hstack])]
    rw [List.takeWhile_cons_of_neg htop, List.dropWhile_cons_of_neg htop]
    simp [release]

/-- A closing parenthesis with its partner at the top takes the partner off the stack; whether it
releases a function below makes no difference to what comes next. -/
theorem exists_close_opening (out : Array Token) (stack : List Pending) :
    ∃ y, close ⟨out, .opening :: stack⟩ = .ok y ∧ Interchangeable 3 y ⟨out, stack⟩ := by
  have hclose := close_of_split (y := ⟨out, [] ++ .opening :: stack⟩) rfl (by simp)
  refine ⟨_, hclose, ?_⟩
  have heq : release ⟨out, [] ++ .opening :: stack⟩ [] stack = ⟨out, stack⟩ := by simp [release]
  rw [heq]
  exact interchangeable_applyFunction _

/-! ## Whole runs -/

/-- The end is reached in success if no parenthesis is open, and it releases the whole stack. -/
theorem finish_eq_ok_iff {program : List Token} :
    y.finish = .ok program ↔
      .opening ∉ y.stack ∧ program = (y.release y.stack []).output.toList := by
  rw [finish]
  by_cases hopening : .opening ∈ y.stack
  · simp [hopening]
  · simp [hopening, eq_comm]

end Plotter.Yard

namespace Plotter

/-- The reordering is a run over all tokens and then the end. -/
theorem toPostfix_eq_ok_iff {ts program : List Token} :
    toPostfix ts = .ok program ↔
      ∃ y, ts.foldlM Yard.step {} = .ok y ∧ y.finish = .ok program := by
  rw [toPostfix]
  cases hrun : ts.foldlM Yard.step {} with
  | error e => simp
  | ok y => simp

end Plotter
