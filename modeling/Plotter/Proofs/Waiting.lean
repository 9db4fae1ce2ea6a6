import Mathlib.Data.List.Chain
import Plotter.Proofs.FirstFault

/-!
# The order of what waits

A step takes entries off the top of the stack and puts at most its own token on what is left. So the
stack holds tokens in the order in which they were taken in, and what lies under an entry stays the
same as long as the entry waits. Since an operator is put on the first entry that does not yield to
it, what lies under a waiting operator is an opening parenthesis, or binds looser than the operator
does, or equally tight if the operator groups from the right.
-/

namespace Plotter

/-- Of an operator of rank `a` and one of rank `b` to its right, the first leaves the operand
between them to the second: it binds looser, or equally tight and the second groups from the
right. -/
def Rank.LeavesTo (a b : Rank) : Prop :=
  a.precedence < b.precedence ∨ a.precedence = b.precedence ∧ b.associativity = .right

/-- An operator leaves an operand to the next one unless it outbinds that. -/
theorem Rank.leavesTo_iff {a b : Rank} : a.LeavesTo b ↔ a.outbinds b = false := by
  obtain ⟨precedence, associativity⟩ := b
  cases associativity with
  | left =>
    simp only [LeavesTo, outbinds, reduceCtorEq, and_false, or_false, decide_true, Bool.and_true,
      Bool.or_eq_false_iff, decide_eq_false_iff_not]
    omega
  | right =>
    simp only [LeavesTo, outbinds, reduceCtorEq, and_true, decide_false, Bool.and_false,
      Bool.or_false, decide_eq_false_iff_not]
    omega

namespace Pending

variable {u : BinaryOp} {l : Pending}

/-- The entry may lie directly under a waiting operator. -/
inductive MayLieUnder (u : BinaryOp) : Pending → Prop where
  /-- A parenthesis keeps apart what lies on either side of it. -/
  | opening : MayLieUnder u .opening
  /-- A negation leaves its argument to the operator. -/
  | negation : negationRank.LeavesTo u.rank → MayLieUnder u (.function negationName)
  /-- Another operator leaves its right operand to the one above it. -/
  | operator {op : BinaryOp} : op.rank.LeavesTo u.rank → MayLieUnder u (.operator op)

/-- An operator may be put on an entry that does not yield to it, and on no other. -/
theorem mayLieUnder_iff : l.MayLieUnder u ↔ l.yields u = false := by
  constructor
  · intro h
    cases h with
    | opening => rfl
    | negation hrank => simpa [yields] using Rank.leavesTo_iff.1 hrank
    | operator hrank => exact Rank.leavesTo_iff.1 hrank
  · intro h
    cases l with
    | opening => exact .opening
    | function name =>
      obtain ⟨rfl, hrank⟩ : name = negationName ∧ negationRank.outbinds u.rank = false := by
        simpa [yields] using h
      exact .negation (Rank.leavesTo_iff.2 hrank)
    | operator op => exact .operator (Rank.leavesTo_iff.2 h)

/-- The only function on which an operator may lie is the negation. -/
theorem MayLieUnder.eq_negationName {name : String} (h : MayLieUnder u (.function name)) :
    name = negationName := by
  cases h
  rfl

/-- The entry that a token stands for while it waits. -/
def ofToken? : Token → Option Pending
  | .leftParen => some .opening
  | .function name => some (.function name)
  | .operator symbol => (BinaryOp.ofSymbol? symbol).map .operator
  | _ => none

@[simp]
theorem ofToken?_token (e : Pending) : ofToken? e.token = some e := by
  cases e <;> simp [ofToken?, token]

end Pending

namespace Yard

variable {y y' : Yard} {t : Token} {ts : List Token} {stack stack' : List Pending}

/-! ## What a step does to the stack -/

/-- What a step may do to the stack. -/
inductive Restacks (t : Token) (stack : List Pending) : List Pending → Prop where
  /-- A token that does not wait only takes entries off the top. -/
  | shrink {kept : List Pending} : Pending.ofToken? t = none → kept <:+ stack →
      Restacks t stack kept
  /-- A token that waits is put on what is left, an operator on an entry that may lie under it. -/
  | push {kept : List Pending} {e : Pending} : e.token = t → kept <:+ stack →
      (∀ u, e = .operator u → ∀ l ∈ kept.head?, l.MayLieUnder u) → Restacks t stack (e :: kept)

/-- Every step does to the stack what is said of it. -/
theorem restacks_of_step (h : y.step t = .ok y') : Restacks t y.stack y'.stack := by
  cases t with
  | number _ | var _ =>
    cases h
    exact .shrink rfl List.suffix_rfl
  | function name =>
    cases h
    exact .push (e := .function name) rfl List.suffix_rfl (by simp)
  | operator symbol =>
    obtain ⟨op, rfl, rfl⟩ := exists_of_step_operator h
    refine .push (e := .operator op) rfl (List.dropWhile_suffix _) ?_
    rintro u ⟨⟩ l hl
    have hhead := List.head?_dropWhile_not (Pending.yields op) y.stack
    rw [hl] at hhead
    exact Pending.mayLieUnder_iff.2 hhead
  | leftParen =>
    cases h
    exact .push (e := .opening) rfl List.suffix_rfl (by simp)
  | rightParen =>
    obtain ⟨group, below, hstack, -, rfl⟩ := exists_of_close h
    obtain ⟨entries, rest, hbelow, -, heq⟩ := exists_applyFunction (y.release group below)
    have hrest : rest <:+ below := ⟨entries, hbelow.symm⟩
    have hshrunk : rest <:+ y.stack := by
      rw [hstack]
      exact hrest.trans (List.suffix_append_of_suffix (List.suffix_cons _ below))
    rw [heq]
    exact .shrink rfl hshrunk

/-! ## What a step preserves -/

/-- The tokens that wait, in the order in which they were put on the stack. -/
def stacked (stack : List Pending) : List Token := (stack.map Pending.token).reverse

/-- Under every operator lies what may lie there. -/
def Ordered (stack : List Pending) : Prop :=
  stack.IsChain fun e l => ∀ u, e = .operator u → l.MayLieUnder u

namespace Restacks

/-- The tokens that wait after a step waited before it, except for the one that was read. -/
theorem sublist (h : Restacks t stack stack') :
    (stacked stack').Sublist (stacked stack ++ [t]) := by
  cases h with
  | shrink _ hkept =>
    have hsub : (stacked stack').Sublist (stacked stack) := (hkept.sublist.map _).reverse
    exact hsub.trans (List.sublist_append_left _ _)
  | @push kept e htoken hkept _ =>
    have hsub : (stacked kept).Sublist (stacked stack) := (hkept.sublist.map _).reverse
    have hpushed : stacked (e :: kept) = stacked kept ++ [t] := by simp [stacked, htoken]
    rw [hpushed]
    exact hsub.append_right _

/-- A step keeps the order on the stack. -/
theorem ordered (h : Restacks t stack stack') (hordered : Ordered stack) : Ordered stack' := by
  cases h with
  | shrink _ hkept => exact hordered.suffix hkept
  | push _ hkept hunder =>
    exact List.isChain_cons.2 ⟨fun l hl u hu => hunder u hu l hl, hordered.suffix hkept⟩

/-- A token that waits lies at the top. -/
theorem head?_eq {e : Pending} (h : Restacks e.token stack stack') : stack'.head? = some e := by
  generalize ht : e.token = t at h
  cases h with
  | shrink hnone _ =>
    rw [← ht, Pending.ofToken?_token] at hnone
    cases hnone
  | push htoken _ _ =>
    have hentry := congrArg Pending.ofToken? (htoken.trans ht.symm)
    simpa using hentry

end Restacks

/-! ## What a run preserves -/

/-- All that waits was read, in the order in which it waits. -/
theorem sublist_run (h : ts.foldlM step y = .ok y') :
    (stacked y'.stack).Sublist (stacked y.stack ++ ts) := by
  induction ts generalizing y with
  | nil =>
    cases h
    simp
  | cons t ts ih =>
    obtain ⟨z, hstep, hrest⟩ := exists_step_of_foldlM_cons h
    have hhead : (stacked z.stack ++ ts).Sublist ((stacked y.stack ++ [t]) ++ ts) :=
      (restacks_of_step hstep).sublist.append_right ts
    rw [List.append_assoc] at hhead
    exact (ih hrest).trans hhead

/-- So a run keeps the order. -/
theorem ordered_run (h : ts.foldlM step y = .ok y') (hordered : Ordered y.stack) :
    Ordered y'.stack := by
  induction ts generalizing y with
  | nil =>
    cases h
    exact hordered
  | cons t ts ih =>
    obtain ⟨z, hstep, hrest⟩ := exists_step_of_foldlM_cons h
    exact ih hrest ((restacks_of_step hstep).ordered hordered)

theorem head?_run {e : Pending} (h : ts.foldlM step y = .ok y')
    (hlast : ts.getLast? = some e.token) : y'.stack.head? = some e := by
  obtain ⟨us, rfl⟩ := List.getLast?_eq_some_iff.1 hlast
  obtain ⟨z, -, hstep⟩ := exists_run_of_foldlM_append h
  obtain ⟨z', hz, ⟨⟩⟩ := exists_step_of_foldlM_cons hstep
  exact (restacks_of_step hz).head?_eq

/-! ## Between two tokens -/

/-- Before every token and at the end, the stack holds tokens that have been taken in, in their
order: functions, opening parentheses and operators that exist, the latest token at the top if it is
one of these. As many parentheses wait as have been opened and not closed. What lies directly under
an operator is an opening parenthesis, or an operator or a negation that leaves its operand to the
one above; it is never a function that a user can name. -/
theorem stack_ordered (ts : List Token) (i : Nat) (h : (ts.take i).foldlM step {} = .ok y) :
    (stacked y.stack).Sublist (ts.take i) ∧
    (∀ t ∈ stacked y.stack, t = .leftParen ∨ (∃ name, t = .function name) ∨
      ∃ symbol, t = .operator symbol ∧ (BinaryOp.ofSymbol? symbol).isSome) ∧
    (∀ e : Pending, (ts.take i).getLast? = some e.token → y.stack.head? = some e) ∧
    (y.opened : Int) = (ts.take i).count .leftParen - (ts.take i).count .rightParen ∧
    ∀ above u l below, y.stack = above ++ .operator u :: l :: below →
      l.MayLieUnder u ∧ ∀ name, l = .function name → name = negationName := by
  refine ⟨sublist_run h, ?_, fun e => head?_run h, ?_, ?_⟩
  · intro t ht
    obtain ⟨e, -, rfl⟩ := List.mem_map.1 (List.mem_reverse.1 ht)
    cases e with
    | opening => exact .inl rfl
    | function name => exact .inr (.inl ⟨name, rfl⟩)
    | operator op => exact .inr (.inr ⟨op.symbol, rfl, by simp⟩)
  · have hopened := opened_run h
    have hstart : opened {} = 0 := rfl
    omega
  · intro above u l below hstack
    have hordered : Ordered y.stack := ordered_run h List.isChain_nil
    have hunder : l.MayLieUnder u :=
      List.isChain_iff_forall_rel_of_append_cons_cons.1 hordered hstack u rfl
    refine ⟨hunder, ?_⟩
    rintro name rfl
    exact hunder.eq_negationName

/-- The tokens of `1 - 2 * -3 ^ sin(x + y) ^ (z / 4)`. -/
def towerOfPowers : List Token :=
  [.number 1, Token.minus, .number 2, Token.times, Token.negation, .number 3, .operator "^",
    .function "sin", .leftParen, .var "x", .operator "+", .var "y", .rightParen, .operator "^",
    .leftParen, .var "z", .operator "/", .number 4, .rightParen]

/-- What waits before the last of them. -/
def towerStack : List Pending :=
  [.operator .div, .opening, .operator .pow, .operator .pow, .function negationName, .operator .mul,
    .operator .sub]

/-- Operators wait on an opening parenthesis, on an operator that binds equally tight, on a negation
and on an operator that binds looser; the sine has been released with its group. -/
theorem stack_ordered_towerOfPowers :
    ∃ y : Yard, (towerOfPowers.take 18).foldlM step {} = .ok y ∧ y.stack = towerStack ∧
      (y.opened : Int) = 2 - 1 ∧ Pending.MayLieUnder .div .opening ∧
      Pending.MayLieUnder .pow (.operator .pow) ∧
      Pending.MayLieUnder .pow (.function negationName) ∧
      Pending.MayLieUnder .mul (.operator .sub) := by
  obtain ⟨y, hrun, hstack⟩ : ∃ y : Yard, (towerOfPowers.take 18).foldlM step {} = .ok y ∧
      y.stack = towerStack := ⟨_, rfl, rfl⟩
  obtain ⟨-, -, -, hopened, hunder⟩ := stack_ordered towerOfPowers 18 hrun
  exact ⟨y, hrun, hstack, hopened, (hunder [] _ _ _ hstack).1,
    (hunder (towerStack.take 2) _ _ _ hstack).1, (hunder (towerStack.take 3) _ _ _ hstack).1,
    (hunder (towerStack.take 5) _ _ _ hstack).1⟩

end Yard

end Plotter
