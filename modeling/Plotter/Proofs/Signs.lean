import Mathlib.Data.List.Basic
import Plotter.Infix.Juxtaposition
import Plotter.Infix.Negation

/-!
# Signs put in and told apart

Before tokens are reordered, the multiplication signs that the user left out are put in and the
minus signs that negate are marked. Both passes look at neighbours only, so what they make of a list
is put together from what they make of its parts: after a token that ends an operand the second part
does not depend on anything further to the left.
-/

namespace Plotter.Infix

/-- The sign that is put between two neighbouring tokens, if one is. -/
def gap (s t : Token) : List Token := if impliesProduct s t then [Token.times] else []

/-- What the two passes make of a list; `initial` tells whether a minus sign in front negates. -/
def prepare (initial : Bool) (ts : List Token) : List Token := markFrom initial (insertProducts ts)

/-- What the two passes make of the tokens that follow `last`, where `last` ends an operand. -/
def prepareAfter (last : Token) : List Token → List Token
  | [] => []
  | t :: ts => markFrom false (gap last t ++ insertProducts (t :: ts))

variable {initial : Bool} {last t : Token} {xs ys ss ts : List Token}

/-! ## The two passes on a concatenation -/

theorem insertProducts_cons_cons (s t : Token) (ts : List Token) :
    insertProducts (s :: t :: ts) = s :: (gap s t ++ insertProducts (t :: ts)) := by
  rw [insertProducts, gap]
  split <;> rfl

/-- Across the seam of two lists only the sign between the neighbours is added. -/
theorem insertProducts_append (h : ss.getLast? = some last) :
    insertProducts (ss ++ t :: ts) =
      insertProducts ss ++ (gap last t ++ insertProducts (t :: ts)) := by
  induction ss with
  | nil => cases h
  | cons s rest ih =>
    cases rest with
    | nil =>
      obtain rfl : s = last := by simpa using h
      exact insertProducts_cons_cons s t ts
    | cons s' rest =>
      have hrest := ih (by simpa [List.getLast?_cons] using h)
      rw [List.cons_append] at hrest
      rw [List.cons_append, List.cons_append, insertProducts_cons_cons, insertProducts_cons_cons,
        hrest]
      simp

/-- The first token stays the first. -/
theorem head?_insertProducts (ts : List Token) : (insertProducts ts).head? = ts.head? := by
  cases ts with
  | nil => rfl
  | cons s ts =>
    cases ts with
    | nil => rfl
    | cons t ts =>
      rw [insertProducts_cons_cons]
      rfl

/-- The last token stays the last. -/
theorem getLast?_insertProducts (ss : List Token) : (insertProducts ss).getLast? = ss.getLast? := by
  induction ss with
  | nil => rfl
  | cons s rest ih =>
    cases rest with
    | nil => rfl
    | cons s' rest =>
      rw [insertProducts_cons_cons, List.getLast?_cons, List.getLast?_append, ih]
      simp [List.getLast?_cons]

/-- What follows a token other than a minus sign is marked by what the token admits. -/
theorem markFrom_append_of_getLast? (h : xs.getLast? = some last) (hne : last ≠ Token.minus) :
    markFrom initial (xs ++ ys) = markFrom initial xs ++ markFrom (admitsNegation last) ys := by
  induction xs generalizing initial with
  | nil => cases h
  | cons x rest ih =>
    cases rest with
    | nil =>
      obtain rfl : x = last := by simpa using h
      simp [markFrom, hne]
    | cons x' rest =>
      have hrest : (x' :: rest).getLast? = some last := by simpa [List.getLast?_cons] using h
      rw [List.cons_append, markFrom, markFrom]
      split
      · rw [ih hrest, List.cons_append]
      · rw [ih hrest, List.cons_append]

/-- After a token that ends an operand a minus sign never negates. -/
theorem markFrom_append (h : xs.getLast? = some last) (hends : endsOperand last = true) :
    markFrom initial (xs ++ ys) = markFrom initial xs ++ markFrom false ys := by
  have hne : last ≠ Token.minus := by
    rintro rfl
    cases hends
  have hadmits : admitsNegation last = false := by
    cases last with
    | number _ | var _ | function _ | rightParen => rfl
    | operator _ | leftParen => cases hends
  rw [markFrom_append_of_getLast? h hne, hadmits]

/-- After a token that ends an operand both passes start afresh. -/
theorem prepare_append (h : ss.getLast? = some last) (hends : endsOperand last = true) :
    prepare initial (ss ++ ts) = prepare initial ss ++ prepareAfter last ts := by
  cases ts with
  | nil => simp [prepareAfter]
  | cons t ts =>
    rw [prepare, insertProducts_append h, prepareAfter,
      markFrom_append (by rw [getLast?_insertProducts, h]) hends]
    rfl

/-! ## The first token -/

@[simp]
theorem prepare_nil : prepare initial [] = [] := rfl

@[simp]
theorem prepareAfter_nil : prepareAfter last [] = [] := rfl

/-- An operand in front stays as it is. -/
theorem prepare_operand (h : endsOperand t = true) :
    prepare initial (t :: ts) = t :: prepareAfter t ts := by
  have hsingle : prepare initial [t] = [t] := by
    cases t <;> simp_all [prepare, insertProducts, markFrom, endsOperand, Token.minus]
  have happend : prepare initial ([t] ++ ts) = prepare initial [t] ++ prepareAfter t ts :=
    prepare_append rfl h
  rw [hsingle] at happend
  exact happend

theorem insertProducts_cons_of_not_endsOperand (h : endsOperand t = false) :
    insertProducts (t :: ts) = t :: insertProducts ts := by
  cases ts with
  | nil => rfl
  | cons t' ts =>
    rw [insertProducts_cons_cons, gap]
    cases t <;> simp_all [impliesProduct, endsOperand]

@[simp]
theorem prepare_function (name : String) :
    prepare initial (.function name :: ts) = .function name :: prepare false ts := by
  rw [prepare, insertProducts_cons_of_not_endsOperand rfl, markFrom]
  simp [Token.minus, admitsNegation, prepare]

@[simp]
theorem prepare_leftParen : prepare initial (.leftParen :: ts) = .leftParen :: prepare true ts := by
  rw [prepare, insertProducts_cons_of_not_endsOperand rfl, markFrom]
  simp [Token.minus, admitsNegation, prepare]

/-- A minus sign in front of everything becomes a negation. -/
theorem prepare_minus : prepare true (Token.minus :: ts) = Token.negation :: prepare false ts := by
  rw [prepare, insertProducts_cons_of_not_endsOperand rfl, markFrom]
  simp [prepare]

/-- Any other operator stays, and a minus sign behind it negates. -/
theorem prepare_operator {symbol : String} (h : initial = false ∨ symbol ≠ "-") :
    prepare initial (.operator symbol :: ts) = .operator symbol :: prepare true ts := by
  rw [prepare, insertProducts_cons_of_not_endsOperand rfl, markFrom, if_neg]
  · rfl
  · rintro ⟨hinitial, hminus⟩
    rcases h with h | h
    · simp [h] at hinitial
    · exact h (by simpa [Token.minus] using hminus)

/-- Where the first token is no minus sign, it does not matter what is to the left. -/
theorem prepare_eq_prepare_true (h : t ≠ Token.minus) :
    prepare initial (t :: ts) = prepare true (t :: ts) := by
  cases ts with
  | nil => simp [prepare, insertProducts, markFrom, h]
  | cons t' ts => simp [prepare, insertProducts_cons_cons, markFrom, h]

/-! ## The token after an operand -/

theorem gap_rightParen (last : Token) : gap last .rightParen = [] := by
  cases last <;> simp [gap, impliesProduct, endsOperand, startsFactor]

@[simp]
theorem prepareAfter_operator (symbol : String) :
    prepareAfter last (.operator symbol :: ts) = .operator symbol :: prepare true ts := by
  have hgap : gap last (.operator symbol) = [] := by
    cases last <;> simp [gap, impliesProduct, endsOperand, startsFactor]
  rw [prepareAfter, hgap]
  exact prepare_operator (.inl rfl)

@[simp]
theorem prepareAfter_rightParen :
    prepareAfter last (.rightParen :: ts) = .rightParen :: prepareAfter .rightParen ts := by
  rw [prepareAfter, gap_rightParen]
  exact prepare_operand rfl

/-- Where a product is meant, the second factor is taken as after a written sign. -/
theorem prepareAfter_of_impliesProduct (h : impliesProduct last t = true) :
    prepareAfter last (t :: ts) = Token.times :: prepare true (t :: ts) := by
  rw [prepareAfter, gap, if_pos h]
  simp [markFrom, Token.times, Token.minus, admitsNegation, prepare]

theorem prepareAfter_of_not_impliesProduct (h : impliesProduct last t = false) :
    prepareAfter last (t :: ts) = prepare false (t :: ts) := by
  rw [prepareAfter, gap, h]
  rfl

/-! ## Closing parentheses -/

/-- Marking starts afresh before a token that is no minus sign. -/
theorem markFrom_append_of_ne_minus (h : t ≠ Token.minus) (xs ys : List Token) :
    markFrom initial (xs ++ t :: ys) = markFrom initial xs ++ markFrom true (t :: ys) := by
  induction xs generalizing initial with
  | nil => simp [markFrom, h]
  | cons x xs ih =>
    rw [List.cons_append, markFrom, markFrom, ih, ih]
    split <;> rfl

theorem insertProducts_append_rightParen (ss ts : List Token) :
    insertProducts (ss ++ .rightParen :: ts) =
      insertProducts ss ++ insertProducts (.rightParen :: ts) := by
  cases hlast : ss.getLast? with
  | none =>
    obtain rfl : ss = [] := by simpa using hlast
    rfl
  | some last =>
    rw [insertProducts_append hlast, gap_rightParen]
    rfl

/-- What stands before a closing parenthesis does not matter for what follows it. -/
theorem prepare_append_rightParen (ss ts : List Token) :
    prepare initial (ss ++ .rightParen :: ts) =
      prepare initial ss ++ .rightParen :: prepareAfter .rightParen ts := by
  obtain ⟨rest, hrest⟩ : ∃ rest, insertProducts (.rightParen :: ts) = .rightParen :: rest := by
    cases ts with
    | nil => exact ⟨[], rfl⟩
    | cons t ts => exact ⟨_, insertProducts_cons_cons _ _ _⟩
  have hclosing : prepare true (.rightParen :: ts) = .rightParen :: prepareAfter .rightParen ts :=
    prepare_operand rfl
  rw [← hclosing, prepare, prepare, prepare, insertProducts_append_rightParen, hrest]
  exact markFrom_append_of_ne_minus (by simp [Token.minus]) _ _

/-! ## What is no sign -/

variable {α : Type} {f : Token → Option α}

/-- The pass that puts in signs leaves alone what is no sign. -/
theorem filterMap_insertProducts (htimes : f Token.times = none) (ts : List Token) :
    (insertProducts ts).filterMap f = ts.filterMap f := by
  induction ts with
  | nil => rfl
  | cons s ts ih =>
    cases ts with
    | nil => rfl
    | cons t ts =>
      have hgap : (gap s t).filterMap f = [] := by
        rw [gap]
        split
        · exact List.filterMap_cons_none htimes
        · rfl
      rw [insertProducts_cons_cons, ← List.singleton_append, List.filterMap_append,
        List.filterMap_append, hgap, List.nil_append, ih, ← List.filterMap_append]
      rfl

/-- So does the pass that marks negations. -/
theorem filterMap_markFrom (hminus : f Token.minus = none) (hnegation : f Token.negation = none)
    (initial : Bool) (ts : List Token) : (markFrom initial ts).filterMap f = ts.filterMap f := by
  induction ts generalizing initial with
  | nil => rfl
  | cons t ts ih =>
    rw [markFrom]
    split
    · rename_i h
      rw [h.2, List.filterMap_cons_none hnegation, List.filterMap_cons_none hminus, ih]
    · rw [List.filterMap_cons, List.filterMap_cons, ih]

/-- Whatever is picked out of the tokens, but not out of signs, is the same before and after the two
passes. -/
theorem filterMap_prepare (htimes : f Token.times = none) (hminus : f Token.minus = none)
    (hnegation : f Token.negation = none) (initial : Bool) (ts : List Token) :
    (prepare initial ts).filterMap f = ts.filterMap f := by
  rw [prepare, filterMap_markFrom hminus hnegation, filterMap_insertProducts htimes]

end Plotter.Infix
