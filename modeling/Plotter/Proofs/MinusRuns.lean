import Plotter.Proofs.Signs

/-!
# Minus signs in a row

Whether a minus sign negates depends on what was made of the one before it. Along a run of minus
signs the two forms therefore alternate, and the first of them is decided by the token before the
run. All other tokens stay as they are.
-/

namespace Plotter.Infix

/-- A maximal run of `n` minus signs from the index `i` on. -/
structure MinusRun (ts : List Token) (i n : Nat) : Prop where
  /-- There is a minus sign. -/
  pos : 0 < n
  /-- The run consists of minus signs. -/
  minus : ∀ k < n, ts[i + k]? = some Token.minus
  /-- No minus sign stands before the run. -/
  start : i = 0 ∨ ts[i - 1]? ≠ some Token.minus
  /-- No minus sign stands after the run. -/
  stop : ts[i + n]? ≠ some Token.minus

/-- Nothing stands before the index, or an operator or an opening parenthesis does. -/
def OpenAt (ts : List Token) (i : Nat) : Prop :=
  i = 0 ∨ ∃ t, ts[i - 1]? = some t ∧ ((∃ symbol, t = .operator symbol) ∨ t = .leftParen)

/-- A number, a variable, a function or a closing parenthesis stands before the index. -/
def ShutAt (ts : List Token) (i : Nat) : Prop :=
  i ≠ 0 ∧ ∃ t, ts[i - 1]? = some t ∧
    ((∃ x, t = .number x) ∨ (∃ name, t = .var name) ∨ (∃ name, t = .function name) ∨
      t = .rightParen)

/-- The form that a minus sign takes. -/
def minusForm (negates : Bool) : Token := if negates then Token.negation else Token.minus

variable {initial negates : Bool} {t : Token} {ts : List Token} {i k n : Nat}

/-! ## One minus sign -/

/-- A minus sign takes its form, and the next token is looked at in the other context. -/
theorem markFrom_minus (initial : Bool) (ts : List Token) :
    markFrom initial (Token.minus :: ts) = minusForm initial :: markFrom (!initial) ts := by
  cases initial with
  | true => simp [markFrom, minusForm]
  | false => simp [markFrom, minusForm, Token.minus, admitsNegation]

theorem length_markFrom (initial : Bool) (ts : List Token) :
    (markFrom initial ts).length = ts.length := by
  induction ts generalizing initial with
  | nil => rfl
  | cons t ts ih =>
    rw [markFrom]
    split
    · rw [List.length_cons, List.length_cons, ih]
    · rw [List.length_cons, List.length_cons, ih]

theorem getElem?_markFrom_of_ne_minus (ht : ts[i]? = some t) (hne : t ≠ Token.minus) :
    (markFrom initial ts)[i]? = some t := by
  induction ts generalizing initial i with
  | nil => cases ht
  | cons s ts ih =>
    cases i with
    | zero =>
      obtain rfl : s = t := by simpa using ht
      simp [markFrom, hne]
    | succ i =>
      have htail : ts[i]? = some t := by simpa using ht
      rw [markFrom]
      split
      · rw [List.getElem?_cons_succ, ih htail]
      · rw [List.getElem?_cons_succ, ih htail]

/-! ## A run of them -/

theorem exists_cons_of_getElem?_zero (h : ts[0]? = some t) : ∃ rest, ts = t :: rest := by
  rw [← List.head?_eq_getElem?] at h
  exact List.head?_eq_some_iff.1 h

/-- Along minus signs in front the two forms alternate. -/
theorem getElem?_markFrom_of_minus (h : ∀ j ≤ k, ts[j]? = some Token.minus) :
    (markFrom initial ts)[k]? = some (minusForm (if k % 2 = 0 then initial else !initial)) := by
  induction k generalizing initial ts with
  | zero =>
    obtain ⟨rest, rfl⟩ := exists_cons_of_getElem?_zero (h 0 (Nat.le_refl 0))
    rw [markFrom_minus]
    rfl
  | succ k ih =>
    obtain ⟨rest, rfl⟩ := exists_cons_of_getElem?_zero (h 0 (Nat.zero_le _))
    have hrest : ∀ j ≤ k, rest[j]? = some Token.minus := by
      intro j hj
      have hnext := h (j + 1) (by omega)
      rwa [List.getElem?_cons_succ] at hnext
    rw [markFrom_minus, List.getElem?_cons_succ, ih hrest]
    rcases Nat.mod_two_eq_zero_or_one k with hk | hk
    · have hodd : (k + 1) % 2 ≠ 0 := by omega
      rw [if_pos hk, if_neg hodd]
    · have heven : (k + 1) % 2 = 0 := by omega
      have hk' : k % 2 ≠ 0 := by omega
      rw [if_neg hk', if_pos heven, Bool.not_not]

/-- What stands before an index other than a minus sign decides what is made of the rest. -/
theorem getElem?_markFrom_after (ht : ts[i]? = some t) (hne : t ≠ Token.minus) (k : Nat) :
    (markFrom initial ts)[i + 1 + k]? = (markFrom (admitsNegation t) (ts.drop (i + 1)))[k]? := by
  have hi : i < ts.length := (List.getElem?_eq_some_iff.1 ht).1
  have hlast : (ts.take (i + 1)).getLast? = some t := by
    rw [List.take_add_one, ht]
    simp
  have hlength : (markFrom initial (ts.take (i + 1))).length = i + 1 := by
    rw [length_markFrom, List.length_take]
    omega
  have hsplit : markFrom initial ts =
      markFrom initial (ts.take (i + 1)) ++ markFrom (admitsNegation t) (ts.drop (i + 1)) := by
    rw [← markFrom_append_of_getLast? hlast hne, List.take_append_drop]
  rw [hsplit, List.getElem?_append_right (by omega), hlength, Nat.add_sub_cancel_left]

theorem MinusRun.ne_minus (h : MinusRun ts i n) (hi : i ≠ 0) (ht : ts[i - 1]? = some t) :
    t ≠ Token.minus := by
  rintro rfl
  rcases h.start with hzero | hne
  · exact hi hzero
  · exact hne ht

theorem MinusRun.drop (h : MinusRun ts i n) (hk : k < n) :
    ∀ j ≤ k, (ts.drop i)[j]? = some Token.minus := by
  intro j hj
  rw [List.getElem?_drop]
  exact h.minus j (by omega)

/-- A run after a token takes its forms by what the token admits. -/
theorem MinusRun.getElem?_markFrom (h : MinusRun ts i n) (hi : i ≠ 0) (ht : ts[i - 1]? = some t)
    (hk : k < n) :
    (markFrom initial ts)[i + k]? =
      some (minusForm (if k % 2 = 0 then admitsNegation t else !admitsNegation t)) := by
  obtain ⟨i, rfl⟩ := Nat.exists_eq_succ_of_ne_zero hi
  rw [Nat.succ_eq_add_one, Nat.add_sub_cancel] at ht
  have hne := h.ne_minus hi ht
  rw [getElem?_markFrom_after ht hne, getElem?_markFrom_of_minus (h.drop hk)]

/-- In an open place the first sign of a run negates, and then every other one. -/
theorem MinusRun.getElem?_of_openAt (h : MinusRun ts i n) (hopen : OpenAt ts i) (hk : k < n) :
    (markNegations ts)[i + k]? = some (minusForm (k % 2 = 0)) := by
  by_cases hi : i = 0
  · subst hi
    have hrun := h.drop hk
    rw [List.drop_zero] at hrun
    rw [Nat.zero_add, markNegations, getElem?_markFrom_of_minus hrun]
    by_cases heven : k % 2 = 0 <;> simp [heven]
  · obtain ⟨t, ht, hkind⟩ := hopen.resolve_left hi
    have hadmits : admitsNegation t = true := by
      rcases hkind with ⟨symbol, rfl⟩ | rfl
      · rfl
      · rfl
    rw [markNegations, h.getElem?_markFrom hi ht hk, hadmits]
    by_cases heven : k % 2 = 0 <;> simp [heven]

/-- In a shut place the second sign of a run negates, and then every other one. -/
theorem MinusRun.getElem?_of_shutAt (h : MinusRun ts i n) (hshut : ShutAt ts i) (hk : k < n) :
    (markNegations ts)[i + k]? = some (minusForm (k % 2 = 1)) := by
  obtain ⟨hi, t, ht, hkind⟩ := hshut
  have hadmits : admitsNegation t = false := by
    rcases hkind with ⟨x, rfl⟩ | ⟨name, rfl⟩ | ⟨name, rfl⟩ | rfl
    · rfl
    · rfl
    · rfl
    · rfl
  rw [markNegations, h.getElem?_markFrom hi ht hk, hadmits]
  rcases Nat.mod_two_eq_zero_or_one k with hk' | hk'
  · simp [hk']
  · simp [hk']

theorem openAt_or_shutAt (h : MinusRun ts i n) : OpenAt ts i ∨ ShutAt ts i := by
  by_cases hi : i = 0
  · exact .inl (.inl hi)
  · -- The run is not empty, so there is a token before it.
    obtain ⟨hlt, -⟩ := List.getElem?_eq_some_iff.1 (h.minus 0 h.pos)
    have hbefore : i - 1 < ts.length := by omega
    have ht := List.getElem?_eq_getElem hbefore
    generalize ts[i - 1] = t at ht
    cases t with
    | number x => exact .inr ⟨hi, _, ht, .inl ⟨x, rfl⟩⟩
    | var name => exact .inr ⟨hi, _, ht, .inr (.inl ⟨name, rfl⟩)⟩
    | function name => exact .inr ⟨hi, _, ht, .inr (.inr (.inl ⟨name, rfl⟩))⟩
    | operator symbol => exact .inl (.inr ⟨_, ht, .inl ⟨symbol, rfl⟩⟩)
    | leftParen => exact .inl (.inr ⟨_, ht, .inr rfl⟩)
    | rightParen => exact .inr ⟨hi, _, ht, .inr (.inr (.inr rfl))⟩

/-- Marking keeps the number of tokens, and every token that is no minus sign. In a run of minus signs
every second one negates: beginning with the first where nothing, an operator or an opening
parenthesis stands before the run, and with the second where anything else does. -/
theorem markNegations_closed_form (ts : List Token) :
    (markNegations ts).length = ts.length ∧
      (∀ (i : Nat) (t : Token), ts[i]? = some t → t ≠ Token.minus →
        (markNegations ts)[i]? = some t) ∧
      ∀ i n, MinusRun ts i n →
        (OpenAt ts i ∨ ShutAt ts i) ∧
          (OpenAt ts i → ∀ k < n, (markNegations ts)[i + k]? =
            some (if k % 2 = 0 then Token.negation else Token.minus)) ∧
          (ShutAt ts i → ∀ k < n, (markNegations ts)[i + k]? =
            some (if k % 2 = 1 then Token.negation else Token.minus)) := by
  refine ⟨length_markFrom true ts, ?_, ?_⟩
  · intro i t ht hne
    exact getElem?_markFrom_of_ne_minus ht hne
  · intro i n hrun
    refine ⟨openAt_or_shutAt hrun, ?_, ?_⟩
    · intro hopen k hk
      simpa [minusForm] using hrun.getElem?_of_openAt hopen hk
    · intro hshut k hk
      simpa [minusForm] using hrun.getElem?_of_shutAt hshut hk

/-- After a number the second and the fourth of four minus signs negate. -/
example : markNegations [.number 1, Token.minus, Token.minus, Token.minus, Token.minus, .var "x"] =
    [.number 1, Token.minus, Token.negation, Token.minus, Token.negation, .var "x"] := by
  rfl

end Plotter.Infix
