import Plotter.Postfix.Evaluation
import Plotter.Proofs.Run

/-!
# Formulas as trees

A sound program is the listing of a tree in which every node comes after its children. The tree is
unique, and running the program computes the value of the tree from its leaves up, the left operand
first. Trees are recovered from programs by the stack discipline of the evaluator itself: a stack of
trees takes the place of the stack of values.
-/

namespace Plotter

/-- Whether a name has no value. -/
def Bindings.lacks (bindings : Bindings) (name : String) : Bool := (bindings name).isNone

/-- The tree of a formula. -/
inductive Tree where
  /-- A number. -/
  | number (value : Float)
  /-- A variable. -/
  | var (name : String)
  /-- A function with its argument. -/
  | unary (f : UnaryFn) (argument : Tree)
  /-- A binary operator with its operands. -/
  | binary (op : BinaryOp) (left right : Tree)
deriving DecidableEq

namespace Tree

/-- The tokens of a tree, those of a node after those of its children. -/
def postorder : Tree → List Token
  | .number value => [.number value]
  | .var name => [.var name]
  | .unary f argument => argument.postorder ++ [.function f.name]
  | .binary op left right => left.postorder ++ right.postorder ++ [.operator op.symbol]

/-- The value of a tree under the given bindings. The left operand is computed before the right one,
so the first variable without a value, read from the left, decides the error. -/
def value (bindings : Bindings) : Tree → Except EvalError Float
  | .number value => .ok value
  | .var name =>
    match bindings name with
    | some value => .ok value
    | none => .error (.unbound name)
  | .unary f argument => do
    let x ← argument.value bindings
    return f.apply x
  | .binary op left right => do
    let x ← left.value bindings
    let y ← right.value bindings
    return op.apply x y

/-- The names at the leaves, from left to right. -/
def leafNames : Tree → List String
  | .number _ => []
  | .var name => [name]
  | .unary _ argument => argument.leafNames
  | .binary _ left right => left.leafNames ++ right.leafNames

/-- The tokens of a stack of trees, the latest of which comes last. -/
def listing (forest : List Tree) : List Token := forest.reverse.flatMap postorder

/-- The stack of trees after a token; the latest trees are the operands. -/
def shift (forest : List Tree) : Token → Option (List Tree)
  | .number value => some (.number value :: forest)
  | .var name => some (.var name :: forest)
  | .operator symbol =>
    match BinaryOp.ofSymbol? symbol, forest with
    | some op, right :: left :: rest => some (.binary op left right :: rest)
    | _, _ => none
  | .function name =>
    match UnaryFn.ofName? name, forest with
    | some f, argument :: rest => some (.unary f argument :: rest)
    | _, _ => none
  | .leftParen => none
  | .rightParen => none

variable {bindings : Bindings} {program : List Token}

@[simp]
theorem listing_nil : listing [] = [] := rfl

@[simp]
theorem listing_cons (t : Tree) (forest : List Tree) :
    listing (t :: forest) = listing forest ++ t.postorder := by
  simp [listing]

theorem postorder_ne_nil (t : Tree) : t.postorder ≠ [] := by
  cases t <;> simp [postorder]

/-! ## Reading a listing back -/

/-- Taking in the tokens of a tree puts that tree on the stack, whatever was there before. -/
theorem foldlM_shift_postorder (t : Tree) (forest : List Tree) :
    t.postorder.foldlM shift forest = some (t :: forest) := by
  induction t generalizing forest with
  | number value => rfl
  | var name => rfl
  | unary f argument ih =>
    rw [postorder, List.foldlM_append, ih]
    simp [shift]
  | binary op left right ihl ihr =>
    rw [postorder, List.foldlM_append, List.foldlM_append, ihl]
    simp [shift, ihr]

theorem foldlM_shift_listing (forest : List Tree) :
    (listing forest).foldlM shift [] = some forest := by
  induction forest with
  | nil => rfl
  | cons t forest ih =>
    rw [listing_cons, List.foldlM_append, ih]
    exact foldlM_shift_postorder t forest

/-- A sequence of tokens is the listing of at most one stack of trees. -/
theorem listing_injective : Function.Injective listing := by
  intro forest forest' h
  have hf := foldlM_shift_listing forest
  rw [h, foldlM_shift_listing forest'] at hf
  exact (Option.some.inj hf).symm

theorem postorder_injective : Function.Injective postorder := by
  intro s t h
  have hl : listing [s] = listing [t] := by simp [h]
  exact (List.cons.inj (listing_injective hl)).1

/-! ## Checking a listing -/

/-- The postorder of a tree raises the depth of the stack by one. -/
theorem foldlM_depthStep_postorder (t : Tree) (depth : Nat) :
    t.postorder.foldlM Program.depthStep depth = .ok (depth + 1) := by
  induction t generalizing depth with
  | number value => rfl
  | var name => rfl
  | unary f argument ih =>
    rw [postorder, foldlM_append_of_ok (ih depth)]
    exact foldlM_cons_of_ok (by simp [Program.depthStep])
  | binary op left right ihl ihr =>
    rw [postorder, List.append_assoc, foldlM_append_of_ok (ihl depth),
      foldlM_append_of_ok (ihr (depth + 1))]
    exact foldlM_cons_of_ok (by simp [Program.depthStep])

theorem check_postorder (t : Tree) : Program.check t.postorder = .ok () := by
  have hrun := foldlM_depthStep_postorder t 0
  simp [Program.check, hrun, postorder_ne_nil]

/-- A token that the check admits is taken in by a stack of as many trees as there are values. -/
theorem exists_shift_of_depthStep {forest : List Tree} {token : Token} {depth : Nat}
    (h : Program.depthStep forest.length token = .ok depth) :
    ∃ forest', forest'.length = depth ∧ listing forest' = listing forest ++ [token] := by
  cases token with
  | number value => exact ⟨.number value :: forest, by cases h; rfl, by simp [postorder]⟩
  | var name => exact ⟨.var name :: forest, by cases h; rfl, by simp [postorder]⟩
  | function name =>
    simp only [Program.depthStep] at h
    split_ifs at h with hname hdepth
    obtain ⟨f, hf⟩ := Option.ne_none_iff_exists'.1 (by simpa using hname)
    obtain ⟨argument, rest, rfl⟩ := List.exists_cons_of_length_pos (by omega : 0 < forest.length)
    refine ⟨.unary f argument :: rest, by cases h; rfl, ?_⟩
    simp [postorder, UnaryFn.name_of_ofName? hf]
  | operator symbol =>
    simp only [Program.depthStep] at h
    split_ifs at h with hsymbol hdepth
    obtain ⟨op, hop⟩ := Option.ne_none_iff_exists'.1 (by simpa using hsymbol)
    rcases forest with _ | ⟨right, _ | ⟨left, rest⟩⟩
    · exact absurd (by simp) hdepth
    · exact absurd (by simp) hdepth
    · refine ⟨.binary op left right :: rest, by cases h; rfl, ?_⟩
      simp [postorder, BinaryOp.symbol_of_ofSymbol? hop]
  | leftParen => cases h
  | rightParen => cases h

/-- What a run of the check takes in is the listing of as many trees as there are values. -/
theorem exists_listing_of_foldlM_depthStep (forest : List Tree) {depth : Nat}
    (h : program.foldlM Program.depthStep forest.length = .ok depth) :
    ∃ forest', forest'.length = depth ∧ listing forest' = listing forest ++ program := by
  induction program generalizing forest with
  | nil => exact ⟨forest, by cases h; rfl, by simp⟩
  | cons token program ih =>
    obtain ⟨between, hstep, hrest⟩ := exists_step_of_foldlM_cons h
    obtain ⟨forest', rfl, hlisting⟩ := exists_shift_of_depthStep hstep
    obtain ⟨forest'', hlength, hlisting'⟩ := ih forest' hrest
    exact ⟨forest'', hlength, by rw [hlisting', hlisting]; simp⟩

theorem exists_postorder_of_check (h : Program.check program = .ok ()) :
    ∃ t : Tree, t.postorder = program := by
  simp only [Program.check] at h
  split at h
  · cases h
  · rename_i depth hrun
    split_ifs at h with hempty hone
    obtain ⟨forest, hlength, hlisting⟩ := exists_listing_of_foldlM_depthStep [] hrun
    rw [hone] at hlength
    obtain ⟨t, rfl⟩ := List.length_eq_one_iff.1 hlength
    exact ⟨t, by simpa using hlisting⟩

theorem check_eq_ok_iff : Program.check program = .ok () ↔ ∃ t : Tree, t.postorder = program :=
  ⟨exists_postorder_of_check, fun ⟨t, ht⟩ => ht ▸ check_postorder t⟩

/-! ## Running a listing -/

/-- Running the tokens of a tree puts its value on the stack and touches nothing below; a variable
without a value ends the run as it ends the computation of the tree. -/
theorem foldlM_evalStep_postorder (t : Tree) (stack : List Float) :
    t.postorder.foldlM (Program.evalStep bindings) stack =
      (t.value bindings).map (· :: stack) := by
  induction t generalizing stack with
  | number value => rfl
  | var name =>
    cases hname : bindings name <;> simp [postorder, Program.evalStep, value, hname, Except.map]
  | unary f argument ih =>
    rw [postorder, value]
    cases hx : argument.value bindings with
    | error e =>
      rw [List.foldlM_append, ih, hx]
      rfl
    | ok x =>
      rw [hx] at ih
      rw [foldlM_append_of_ok (ih stack)]
      exact foldlM_cons_of_ok (by simp [Program.evalStep])
  | binary op left right ihl ihr =>
    rw [postorder, value, List.append_assoc]
    cases hx : left.value bindings with
    | error e =>
      rw [List.foldlM_append, ihl, hx]
      rfl
    | ok x =>
      rw [hx] at ihl
      rw [foldlM_append_of_ok (ihl stack)]
      cases hy : right.value bindings with
      | error e =>
        rw [List.foldlM_append, ihr, hy]
        rfl
      | ok y =>
        rw [hy] at ihr
        rw [foldlM_append_of_ok (ihr (x :: stack))]
        exact foldlM_cons_of_ok (by simp [Program.evalStep])

/-- Running the postorder of a tree gives the value of the tree. -/
theorem eval_postorder (t : Tree) : Program.eval bindings t.postorder = t.value bindings := by
  rw [Program.eval, foldlM_evalStep_postorder]
  cases t.value bindings <;> rfl

/-! ## Variables without a value -/

theorem mem_leafNames_iff {t : Tree} {name : String} :
    name ∈ t.leafNames ↔ .var name ∈ t.postorder := by
  induction t with
  | number value => simp [leafNames, postorder]
  | var n => simp [leafNames, postorder]
  | unary f argument ih => simp [leafNames, postorder, ih]
  | binary op left right ihl ihr => simp [leafNames, postorder, ihl, ihr]

theorem exists_value_of_bound {t : Tree} (h : ∀ name ∈ t.leafNames, bindings.lacks name = false) :
    ∃ x, t.value bindings = .ok x := by
  induction t with
  | number value => exact ⟨value, rfl⟩
  | var name =>
    have hname := h name (by simp [leafNames])
    obtain ⟨x, hx⟩ := Option.isSome_iff_exists.1 (by simpa [Bindings.lacks] using hname)
    exact ⟨x, by simp [value, hx]⟩
  | unary f argument ih =>
    obtain ⟨x, hx⟩ := ih h
    exact ⟨f.apply x, by rw [value, hx]; rfl⟩
  | binary op left right ihl ihr =>
    obtain ⟨x, hx⟩ := ihl fun name hn => h name (List.mem_append_left _ hn)
    obtain ⟨y, hy⟩ := ihr fun name hn => h name (List.mem_append_right _ hn)
    exact ⟨op.apply x y, by rw [value, hx, hy]; rfl⟩

/-- The first leaf without a value, read from the left, is the one that the error names. -/
theorem value_of_find?_eq_some {t : Tree} {name : String}
    (h : t.leafNames.find? bindings.lacks = some name) :
    t.value bindings = .error (.unbound name) := by
  induction t with
  | number value => cases h
  | var n =>
    have hn : n = name := by simpa [leafNames, eq_comm] using List.mem_of_find?_eq_some h
    have hnone : bindings n = none := by
      simpa [hn, Bindings.lacks] using List.find?_some h
    rw [value, hnone, hn]
  | unary f argument ih =>
    rw [value, ih h]
    rfl
  | binary op left right ihl ihr =>
    rw [leafNames, List.find?_append, Option.or_eq_some_iff] at h
    rcases h with h | ⟨hleft, h⟩
    · rw [value, ihl h]
      rfl
    · obtain ⟨x, hx⟩ := exists_value_of_bound (t := left) (by simpa using hleft)
      rw [value, hx, ihr h]
      rfl

theorem value_eq_error_iff {t : Tree} {e : EvalError} :
    t.value bindings = .error e ↔
      ∃ name, e = .unbound name ∧ t.leafNames.find? bindings.lacks = some name := by
  constructor
  · intro h
    cases hfind : t.leafNames.find? bindings.lacks with
    | none =>
      obtain ⟨x, hx⟩ := exists_value_of_bound (t := t) (by simpa using hfind)
      rw [hx] at h
      cases h
    | some name =>
      rw [value_of_find?_eq_some hfind] at h
      cases h
      exact ⟨name, rfl, rfl⟩
  · rintro ⟨name, rfl, h⟩
    exact value_of_find?_eq_some h

end Tree

/-! ## Unique readability -/

/-- The check accepts the listings of trees and nothing else, a program is the listing of at most
one tree, and running it computes the value of that tree. The only error is a variable without a
value, and it names the first such leaf from the left. -/
theorem check_eq_ok_iff_unique_tree (program : List Token) :
    (Program.check program = .ok () ↔ ∃ t : Tree, t.postorder = program) ∧
      (∀ s t : Tree, s.postorder = program → t.postorder = program → s = t) ∧
      ∀ t : Tree, t.postorder = program → ∀ bindings : Bindings,
        Program.eval bindings program = t.value bindings ∧
        ∀ e, t.value bindings = .error e ↔
          ∃ name, e = .unbound name ∧ t.leafNames.find? bindings.lacks = some name := by
  refine ⟨Tree.check_eq_ok_iff, ?_, ?_⟩
  · intro s t hs ht
    exact Tree.postorder_injective (hs.trans ht.symm)
  · rintro t rfl bindings
    exact ⟨Tree.eval_postorder t, fun e => Tree.value_eq_error_iff⟩

end Plotter
