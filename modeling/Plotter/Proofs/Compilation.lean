import Plotter.Expression.Basic
import Plotter.Proofs.Grammar
import Plotter.Proofs.Reordering
import Plotter.Proofs.Signs

/-!
# Formulas compile to their trees

Whatever the grammar derives is brought into the postorder of its tree. The statement is made for
phrases of all categories and for every state of the yard: a phrase adds its own postorder to the
output, up to entries that anything that may follow the phrase would release. All that is asked of
the stack is that its top does not take the first operand of the phrase away from it.
-/

namespace Plotter

namespace Phrase

/-- The least precedence of an operator that joins the parts of such a phrase. -/
def inner : Phrase → Nat
  | .expr => 1
  | .term => 2
  | .factor => 3
  | .power => 3
  | .atom => 4

/-- The greatest precedence of an operator that may follow such a phrase. -/
def outer : Phrase → Nat
  | .expr => 1
  | .term => 2
  | .factor => 2
  | .power => 2
  | .atom => 3

end Phrase

/-- The top of the stack is not released by any operator of precedence `n` or more. -/
def Holds (n : Nat) (stack : List Pending) : Prop :=
  ∀ top ∈ stack.head?, ∀ op : BinaryOp, n ≤ op.rank.precedence → top.yields op = false

/-- Taking in the tokens `xs` amounts to putting out the postorder of `t`, for whatever may follow a
phrase of the category. -/
def Reads (c : Phrase) (xs : List Token) (t : Tree) : Prop :=
  ∀ y : Yard, Holds c.inner y.stack →
    ∃ y', xs.foldlM Yard.step y = .ok y' ∧ Yard.Interchangeable c.outer y' (y.emit t.postorder)

/-- An operator may join a left and a right phrase to one of the category `whole`. -/
structure Joins (whole left : Phrase) (op : BinaryOp) (right : Phrase) : Prop where
  /-- What lets the whole begin lets the left phrase begin. -/
  inner_le : whole.inner ≤ left.inner
  /-- The operator may follow the left phrase. -/
  follows : op.rank.precedence ≤ left.outer
  /-- What lets the whole begin lets the operator wait. -/
  waits : whole.inner ≤ op.rank.precedence
  /-- The operator waits until the right phrase is complete. -/
  holds : ∀ o : BinaryOp, right.inner ≤ o.rank.precedence → op.rank.outbinds o.rank = false
  /-- What may follow the whole may follow the right phrase. -/
  outer_le : whole.outer ≤ right.outer
  /-- What may follow the whole releases the operator. -/
  yields : ∀ o : BinaryOp, o.rank.precedence ≤ whole.outer → op.rank.outbinds o.rank = true

variable {c left right whole : Phrase} {xs ys ts : List Token} {s t : Tree} {n m : Nat}
  {stack : List Pending}

/-- What holds against operators of low precedence holds against those of higher precedence. -/
theorem Holds.mono (hnm : n ≤ m) (h : Holds n stack) : Holds m stack :=
  fun top htop op hop => h top htop op (Nat.le_trans hnm hop)

theorem holds_cons {e : Pending}
    (h : ∀ op : BinaryOp, n ≤ op.rank.precedence → e.yields op = false) : Holds n (e :: stack) := by
  intro top htop
  obtain rfl : e = top := by simpa using htop
  exact h

namespace Reads

/-- A phrase may be read as one of a category that allows less before it and after it. -/
theorem mono (hinner : whole.inner ≤ c.inner) (houter : whole.outer ≤ c.outer)
    (h : Reads c xs t) : Reads whole xs t := by
  intro y hy
  obtain ⟨y', hrun, hsame⟩ := h y (hy.mono hinner)
  exact ⟨y', hrun, hsame.mono houter⟩

theorem number (value : Float) : Reads .atom [.number value] (.number value) := by
  intro y _
  exact ⟨_, foldlM_cons_of_ok (Yard.step_number y value), .refl _ _⟩

theorem var (name : String) : Reads .atom [.var name] (.var name) := by
  intro y _
  exact ⟨_, foldlM_cons_of_ok (Yard.step_var y name), .refl _ _⟩

/-- An operator between two phrases. The left phrase is complete for it, the stack below lets it
wait, it holds on until the right phrase is complete, and then it is released together with it. -/
theorem binary {op : BinaryOp} (hj : Joins whole left op right) (hs : Reads left xs s)
    (ht : Reads right ys t) :
    Reads whole (xs ++ .operator op.symbol :: ys) (.binary op s t) := by
  intro y hy
  obtain ⟨y₁, hrun₁, hsame₁⟩ := hs y (hy.mono hj.inner_le)
  have hpush : y₁.pushOperator op = ⟨(y.emit s.postorder).output, .operator op :: y.stack⟩ := by
    rw [hsame₁.operator op hj.follows]
    exact Yard.pushOperator_of_not_yields fun top htop => hy top htop op hj.waits
  -- The right phrase is read above the operator, which it must not release.
  obtain ⟨y₂, hrun₂, hsame₂⟩ :=
    ht ⟨(y.emit s.postorder).output, .operator op :: y.stack⟩ (holds_cons hj.holds)
  refine ⟨y₂, ?_, (hsame₂.mono hj.outer_le).trans ?_⟩
  · rw [foldlM_append_of_ok hrun₁, foldlM_cons_of_ok (Yard.step_operator y₁ op), hpush, hrun₂]
  · have hrelease := Yard.interchangeable_release (e := .operator op) (by simp) hj.yields
      ((y.emit s.postorder).emit t.postorder).output y.stack
    have heq : Yard.emit ⟨((y.emit s.postorder).emit t.postorder).output, y.stack⟩
        [.operator op.symbol] = y.emit (Tree.binary op s t).postorder := by
      show ((y.emit s.postorder).emit t.postorder).emit _ = _
      rw [Yard.emit_emit, Yard.emit_emit, Tree.postorder, List.append_assoc]
    exact heq ▸ hrelease

/-- A function and its operand are read as the application. -/
theorem unary {f : UnaryFn} (ht : Reads right ys t)
    (hholds : ∀ o : BinaryOp, right.inner ≤ o.rank.precedence →
      (Pending.function f.name).yields o = false)
    (houter : whole.outer ≤ right.outer)
    (hyields : ∀ o : BinaryOp, o.rank.precedence ≤ whole.outer →
      (Pending.function f.name).yields o = true) :
    Reads whole (.function f.name :: ys) (.unary f t) := by
  intro y _
  obtain ⟨y', hrun, hsame⟩ := ht ⟨y.output, .function f.name :: y.stack⟩ (holds_cons hholds)
  refine ⟨y', ?_, (hsame.mono houter).trans ?_⟩
  · exact (foldlM_cons_of_ok rfl).trans hrun
  · have hrelease := Yard.interchangeable_release (e := .function f.name) (by simp) hyields
      (y.emit t.postorder).output y.stack
    have heq : Yard.emit ⟨(y.emit t.postorder).output, y.stack⟩ [.function f.name] =
        y.emit (Tree.unary f t).postorder := by
      show (y.emit t.postorder).emit _ = _
      rw [Yard.emit_emit, Tree.postorder]
    exact heq ▸ hrelease

/-- A group in parentheses is closed to the rest of the stack, so anything may be below. -/
theorem parenthesised (h : Reads .expr xs t) :
    Reads .atom (.leftParen :: (xs ++ [.rightParen])) t := by
  intro y _
  obtain ⟨y₁, hrun, hsame⟩ := h ⟨y.output, .opening :: y.stack⟩ (holds_cons fun _ _ => rfl)
  obtain ⟨y₂, hclose, hsame₂⟩ :=
    Yard.exists_close_opening (y.emit t.postorder).output y.stack
  refine ⟨y₂, ?_, hsame₂⟩
  have hopen : y.step .leftParen = .ok ⟨y.output, .opening :: y.stack⟩ := rfl
  have hstep : y₁.step .rightParen = .ok y₂ := hsame.paren.trans hclose
  rw [foldlM_cons_of_ok hopen, foldlM_append_of_ok hrun]
  exact foldlM_cons_of_ok hstep

end Reads

/-! ## The rules of the grammar -/

theorem joins_sum {op : BinaryOp} (hop : op = .add ∨ op = .sub) : Joins .expr .expr op .term := by
  rcases hop with rfl | rfl
  all_goals
    refine ⟨by decide, by decide, by decide, ?_, by decide, ?_⟩
    · intro o
      cases o <;> decide
    · intro o
      cases o <;> decide

theorem joins_product {op : BinaryOp} (hop : op = .mul ∨ op = .div) :
    Joins .term .term op .factor := by
  rcases hop with rfl | rfl
  all_goals
    refine ⟨by decide, by decide, by decide, ?_, by decide, ?_⟩
    · intro o
      cases o <;> decide
    · intro o
      cases o <;> decide

/-- A power stands where a factor does, so a product without a sign is like one with a sign. -/
theorem joins_juxtaposition : Joins .term .term .mul .power := by
  have h := joins_product (.inl rfl : BinaryOp.mul = .mul ∨ BinaryOp.mul = .div)
  exact ⟨h.inner_le, h.follows, h.waits, h.holds, h.outer_le, h.yields⟩

/-- A power takes an atom on the left and a factor on the right, so powers group to the right. -/
theorem joins_power : Joins .power .atom .pow .factor := by
  refine ⟨by decide, by decide, by decide, ?_, by decide, ?_⟩
  · intro o
    cases o <;> decide
  · intro o
    cases o <;> decide

theorem name_ne_negationName {f : UnaryFn} (h : f ≠ .neg) : f.name ≠ negationName := by
  cases f with
  | neg => exact absurd rfl h
  | sin | cos | tan | log | sqrt => decide

/-- A product is meant wherever the grammar lets a power follow a term directly. -/
theorem impliesProduct_of_adjoins {last first : Token} (hends : Infix.endsOperand last = true)
    (h : Adjoins last first) : Infix.impliesProduct last first = true := by
  cases first with
  | number value =>
    obtain ⟨name, rfl⟩ := h
    rfl
  | var _ | function _ | leftParen =>
    cases last <;> simp_all [Infix.impliesProduct, Infix.startsFactor]
  | operator _ | rightParen => exact h.elim

/-- Before an operand that begins without a sign it does not matter where the tokens start. -/
theorem prepare_of_startsOperand {initial : Bool} {first : Token} (hfirst : ts.head? = some first)
    (hstarts : startsOperand first = true) :
    Infix.prepare initial ts = Infix.prepare true ts := by
  obtain ⟨rest, rfl⟩ := List.head?_eq_some_iff.1 hfirst
  refine Infix.prepare_eq_prepare_true ?_
  rintro rfl
  cases hstarts

/-- Every phrase, after the two passes over its tokens, reads as its tree. -/
theorem Derives.reads (h : Derives c ts t) : Reads c (Infix.prepare true ts) t := by
  induction h with
  | exprOfTerm _ ih | termOfFactor _ ih | factorOfPower _ ih | powerOfAtom _ ih =>
    exact ih.mono (by decide) (by decide)
  | number value => exact Reads.number value
  | var name => exact Reads.var name
  | sum hop hs _ ihs iht =>
    obtain ⟨last, hlast, hends⟩ := hs.exists_getLast
    rw [Infix.prepare_append hlast hends, Infix.prepareAfter_operator]
    exact .binary (joins_sum hop) ihs iht
  | product hop hs _ ihs iht =>
    obtain ⟨last, hlast, hends⟩ := hs.exists_getLast
    rw [Infix.prepare_append hlast hends, Infix.prepareAfter_operator]
    exact .binary (joins_product hop) ihs iht
  | power hs _ ihs iht =>
    obtain ⟨last, hlast, hends⟩ := hs.exists_getLast
    rw [Infix.prepare_append hlast hends, Infix.prepareAfter_operator]
    exact .binary joins_power ihs iht
  | juxtaposition hs _ hlast hfirst hadj ihs iht =>
    obtain ⟨last', hlast', hends⟩ := hs.exists_getLast
    obtain rfl : last' = _ := Option.some.inj (hlast'.symm.trans hlast)
    obtain ⟨rest, rfl⟩ := List.head?_eq_some_iff.1 hfirst
    rw [Infix.prepare_append hlast hends,
      Infix.prepareAfter_of_impliesProduct (impliesProduct_of_adjoins hends hadj)]
    exact .binary joins_juxtaposition ihs iht
  | negation ht ih =>
    obtain ⟨first, hfirst, hstarts⟩ := ht.exists_head_of_power
    rw [Infix.prepare_minus, prepare_of_startsOperand hfirst hstarts]
    exact .unary (f := .neg) ih (by intro o; cases o <;> decide) (by decide)
      (by intro o; cases o <;> decide)
  | application hf ht ih =>
    obtain ⟨first, hfirst, hstarts⟩ := ht.exists_head_of_atom
    rw [Infix.prepare_function, prepare_of_startsOperand hfirst hstarts]
    refine .unary ih ?_ (by decide) ?_
    · intro o ho
      cases o <;> exact absurd ho (by decide)
    · intro o _
      exact Yard.yields_of_takesGroup (by simp [Pending.takesGroup, name_ne_negationName hf]) o
  | parenthesised h ih =>
    obtain ⟨last, hlast, hends⟩ := h.exists_getLast
    rw [Infix.prepare_leftParen, Infix.prepare_append hlast hends, Infix.prepareAfter_rightParen]
    exact ih.parenthesised

/-! ## Whole formulas -/

theorem toPostfix_of_derives (h : Derives .expr ts t) :
    toPostfix (Expression.infixTokens ts) = .ok t.postorder := by
  obtain ⟨y, hrun, hsame⟩ := h.reads {} (by simp [Holds])
  have hfinish : y.finish = .ok t.postorder := by
    rw [hsame.ending]
    simp [Yard.finish, Yard.emit, Yard.release]
  have hrun' : (Expression.infixTokens ts).foldlM Yard.step {} = .ok y := hrun
  rw [toPostfix, hrun']
  exact hfinish

theorem programOf_of_derives (h : Derives .expr ts t) :
    Expression.programOf ts = .ok t.postorder :=
  Expression.programOf_eq_ok_iff.2 ⟨toPostfix_of_derives h, Tree.check_postorder t⟩

/-- A source whose tokens are a formula compiles to the postorder of its tree, and under all bindings
the expression has the value of the tree, or the error of the tree. -/
theorem compile_of_derives {source : String} (hscan : Token.scan source = .ok ts)
    (h : Derives .expr ts t) :
    Expression.compile source = .ok ⟨source, t.postorder⟩ ∧
      ∀ bindings : Bindings,
        Expression.evaluate ⟨source, t.postorder⟩ bindings = t.value bindings := by
  refine ⟨?_, fun bindings => Tree.eval_postorder t⟩
  rw [Expression.compile, hscan]
  show (Expression.programOf ts).map _ = _
  rw [programOf_of_derives h]
  rfl

/-- A negated product without a sign, whose second factor is the power of a function. -/
theorem compile_negated_product :
    Token.scan "-2sin x^-y" = .ok [Token.minus, .number 2, .function "sin", .var "x",
      .operator "^", Token.minus, .var "y"] ∧
    Derives .expr [Token.minus, .number 2, .function "sin", .var "x", .operator "^", Token.minus,
      .var "y"]
      (.binary .mul (.unary .neg (.number 2))
        (.binary .pow (.unary .sin (.var "x")) (.unary .neg (.var "y")))) ∧
    Expression.compile "-2sin x^-y" = .ok ⟨"-2sin x^-y", [.number 2, .function "neg", .var "x",
      .function "sin", .var "y", .function "neg", .operator "^", .operator "*"]⟩ := by
  have hscan : Token.scan "-2sin x^-y" = .ok [Token.minus, .number 2, .function "sin", .var "x",
      .operator "^", Token.minus, .var "y"] := by decide +kernel
  have hnegated := Derives.negation (.powerOfAtom (.number 2))
  have hsine := Derives.application (f := .sin) (by decide) (.var "x")
  have hexponent := Derives.negation (.powerOfAtom (.var "y"))
  have hproduct := Derives.juxtaposition (.termOfFactor hnegated) (.power hsine hexponent) rfl rfl
    (by trivial)
  have hformula := Derives.exprOfTerm hproduct
  exact ⟨hscan, hformula, (compile_of_derives hscan hformula).1⟩

end Plotter
