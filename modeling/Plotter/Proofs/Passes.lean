import Mathlib.Data.List.Chain
import Plotter.Proofs.Signs

/-!
# The two passes over the signs

One pass puts signs in, the other marks minus signs, and neither changes what the other looks at: a
sign is put in after an operand, where no minus sign negates, and before a token that is no minus
sign; and a negation, like the minus sign that it was, ends no operand. So the passes may be made in
either order, and making one of them again changes nothing.
-/

namespace Plotter.Infix

/-- Every product that is meant has its sign. -/
def Explicit (ts : List Token) : Prop := ts.IsChain fun s t => impliesProduct s t = false

/-- The tokens after signs were put in, each with whether it is one of these signs. -/
def tagProducts : List Token → List (Token × Bool)
  | s :: t :: rest =>
    if impliesProduct s t then (s, false) :: (Token.times, true) :: tagProducts (t :: rest)
    else (s, false) :: tagProducts (t :: rest)
  | ts => ts.map (·, false)

/-- The tokens that remain when the signs that were put in are removed. -/
def written (tagged : List (Token × Bool)) : List Token :=
  (tagged.filter fun p => !p.2).map Prod.fst

variable {initial : Bool} {s t sign : Token} {ts : List Token} {pre post : List (Token × Bool)}

/-! ## Signs put in -/

theorem impliesProduct_times_left (t : Token) : impliesProduct Token.times t = false := by
  cases t <;> rfl

theorem impliesProduct_times_right (s : Token) : impliesProduct s Token.times = false := by
  cases s <;> rfl

/-- Once the signs are put in, no product is without one. -/
theorem explicit_insertProducts (ts : List Token) : Explicit (insertProducts ts) := by
  induction ts with
  | nil => exact .nil
  | cons s ts ih =>
    cases ts with
    | nil => exact .singleton s
    | cons t ts =>
      have hhead : ∀ u ∈ (insertProducts (t :: ts)).head?, u = t := by
        rw [head?_insertProducts]
        simp
      rw [insertProducts_cons_cons, gap]
      by_cases hproduct : impliesProduct s t = true
      · rw [if_pos hproduct]
        have hsign : Explicit (Token.times :: insertProducts (t :: ts)) :=
          ih.cons fun u _ => impliesProduct_times_left u
        refine hsign.cons fun u hu => ?_
        obtain rfl : Token.times = u := by simpa using hu
        exact impliesProduct_times_right s
      · rw [if_neg hproduct]
        refine ih.cons fun u hu => ?_
        rw [hhead u hu]
        simpa using hproduct

theorem insertProducts_of_explicit (h : Explicit ts) : insertProducts ts = ts := by
  induction ts with
  | nil => rfl
  | cons s ts ih =>
    cases ts with
    | nil => rfl
    | cons t ts =>
      obtain ⟨hst, hts⟩ := List.isChain_cons_cons.1 h
      rw [insertProducts_cons_cons, gap, hst, ih hts]
      rfl

theorem insertProducts_insertProducts (ts : List Token) :
    insertProducts (insertProducts ts) = insertProducts ts :=
  insertProducts_of_explicit (explicit_insertProducts ts)

/-! ## Signs removed again -/

theorem map_fst_tagProducts (ts : List Token) :
    (tagProducts ts).map Prod.fst = insertProducts ts := by
  induction ts with
  | nil => rfl
  | cons s ts ih =>
    cases ts with
    | nil => rfl
    | cons t ts =>
      rw [tagProducts, insertProducts]
      split
      · rw [List.map_cons, List.map_cons, ih]
      · rw [List.map_cons, ih]

/-- Removing the signs that were put in gives the tokens back. -/
theorem written_tagProducts (ts : List Token) : written (tagProducts ts) = ts := by
  induction ts with
  | nil => rfl
  | cons s ts ih =>
    cases ts with
    | nil => rfl
    | cons t ts =>
      rw [written] at ih
      rw [tagProducts, written]
      split
      · simp [ih]
      · simp [ih]

theorem head?_tagProducts (t : Token) (ts : List Token) :
    (tagProducts (t :: ts)).head? = some (t, false) := by
  cases ts with
  | nil => rfl
  | cons t' ts =>
    rw [tagProducts]
    split
    · rfl
    · rfl

/-- A sign is put in between two tokens that were written side by side and whose product is meant. -/
theorem impliesProduct_of_tagProducts (h : tagProducts ts = pre ++ (sign, true) :: post) :
    sign = Token.times ∧ ∃ s t, pre.getLast? = some (s, false) ∧ post.head? = some (t, false) ∧
      impliesProduct s t = true := by
  induction ts generalizing pre with
  | nil => cases pre <;> cases h
  | cons s ts ih =>
    cases ts with
    | nil =>
      -- A single token is written, and nothing else is there.
      cases pre with
      | nil => cases h
      | cons p pre => cases pre <;> cases h
    | cons t ts =>
      rw [tagProducts] at h
      split at h
      · rename_i hproduct
        rcases pre with _ | ⟨p, _ | ⟨q, pre⟩⟩
        · cases h
        · cases h
          exact ⟨rfl, s, t, rfl, head?_tagProducts t ts, hproduct⟩
        · obtain ⟨hp, hq, hrest⟩ : (s, false) = p ∧ (Token.times, true) = q ∧
              tagProducts (t :: ts) = pre ++ (sign, true) :: post := by simpa using h
          obtain ⟨hsign, u, v, hlast, hhead, huv⟩ := ih hrest
          exact ⟨hsign, u, v, by simp [List.getLast?_cons, hlast], hhead, huv⟩
      · rcases pre with _ | ⟨p, pre⟩
        · cases h
        · obtain ⟨hp, hrest⟩ : (s, false) = p ∧
              tagProducts (t :: ts) = pre ++ (sign, true) :: post := by simpa using h
          obtain ⟨hsign, u, v, hlast, hhead, huv⟩ := ih hrest
          exact ⟨hsign, u, v, by simp [List.getLast?_cons, hlast], hhead, huv⟩

/-! ## Minus signs -/

theorem markFrom_markFrom (initial : Bool) (ts : List Token) :
    markFrom initial (markFrom initial ts) = markFrom initial ts := by
  induction ts generalizing initial with
  | nil => rfl
  | cons t ts ih =>
    rw [markFrom]
    split
    · have hnegation : ¬ (initial = true ∧ Token.negation = Token.minus) := by
        simp [Token.negation, Token.minus]
      rw [markFrom, if_neg hnegation]
      exact congrArg _ (ih false)
    · rename_i hminus
      rw [markFrom, if_neg hminus, ih]

/-! ## Both passes -/

/-- A minus sign does not stand where a product is meant. -/
theorem ne_minus_of_impliesProduct (h : impliesProduct s t = true) : t ≠ Token.minus := by
  rintro rfl
  cases s <;> cases h

/-- The sign that is put in after an operand does not decide whether a minus sign negates. -/
theorem prepareAfter_cons (s t : Token) (ts : List Token) :
    prepareAfter s (t :: ts) = gap s t ++ prepare false (t :: ts) := by
  by_cases hproduct : impliesProduct s t = true
  · have hne := ne_minus_of_impliesProduct hproduct
    rw [prepareAfter_of_impliesProduct hproduct, gap, if_pos hproduct, ← prepare_eq_prepare_true hne]
    rfl
  · rw [prepareAfter_of_not_impliesProduct (by simpa using hproduct), gap, if_neg hproduct]
    rfl

/-- Putting signs in after marking minus signs is the same as marking them after. -/
theorem insertProducts_markFrom (initial : Bool) (ts : List Token) :
    insertProducts (markFrom initial ts) = prepare initial ts := by
  induction ts generalizing initial with
  | nil => rfl
  | cons s ts ih =>
    by_cases hends : endsOperand s = true
    · have hmark : markFrom initial ([s] ++ ts) = markFrom initial [s] ++ markFrom false ts :=
        markFrom_append rfl hends
      have hsingle : prepare initial [s] = [s] := prepare_operand hends
      have hmark' : markFrom initial (s :: ts) = s :: markFrom false ts :=
        hmark.trans (congrArg (· ++ markFrom false ts) hsingle)
      rw [hmark', prepare_operand hends]
      cases ts with
      | nil => rfl
      | cons t ts =>
        have hfirst : markFrom false (t :: ts) = t :: markFrom (admitsNegation t) ts := by
          simp [markFrom]
        have hrest := ih false
        rw [hfirst] at hrest ⊢
        rw [insertProducts_cons_cons, hrest, prepareAfter_cons]
    · have hnot : endsOperand s = false := by simpa using hends
      rw [prepare, insertProducts_cons_of_not_endsOperand hnot, markFrom, markFrom]
      split
      · rw [insertProducts_cons_of_not_endsOperand rfl, ih]
        rfl
      · rw [insertProducts_cons_of_not_endsOperand hnot, ih]
        rfl

/-- The two passes may be made in either order, and each of them once or more often. Once the signs
are put in, no product is without one; and the signs that were put in, each of them between two
factors, can be removed again. -/
theorem passes_independent (ts : List Token) :
    markNegations (insertProducts ts) = insertProducts (markNegations ts) ∧
      insertProducts (insertProducts ts) = insertProducts ts ∧
      markNegations (markNegations ts) = markNegations ts ∧
      Explicit (insertProducts ts) ∧
      (tagProducts ts).map Prod.fst = insertProducts ts ∧ written (tagProducts ts) = ts ∧
      ∀ pre sign post, tagProducts ts = pre ++ (sign, true) :: post →
        sign = Token.times ∧ ∃ s t, pre.getLast? = some (s, false) ∧
          post.head? = some (t, false) ∧ impliesProduct s t = true :=
  ⟨(insertProducts_markFrom true ts).symm, insertProducts_insertProducts ts,
    markFrom_markFrom true ts, explicit_insertProducts ts, map_fst_tagProducts ts,
    written_tagProducts ts, fun _ _ _ => impliesProduct_of_tagProducts⟩

end Plotter.Infix
