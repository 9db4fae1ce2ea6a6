import Mathlib.Data.List.TakeWhile
import Plotter.Proofs.Vocabulary
import Plotter.Proofs.Words

/-!
# Sources and their tokens

`Scans` says what the tokens of a text are, lexeme by lexeme and without positions; the scan
succeeds exactly on the texts that have tokens in this sense, and finds them. A text may be put
together from two where neither a number nor a name can be cut in two.
-/

namespace Plotter

open Token

/-- The text consists of the lexemes of the tokens, with spaces among them. Numbers and names are
as long as can be. -/
inductive Scans : List Char → List Token → Prop where
  /-- The empty text has no tokens. -/
  | nil : Scans [] []
  /-- A space belongs to no token. -/
  | space {cs : List Char} {ts : List Token} : Scans cs ts → Scans (' ' :: cs) ts
  /-- A run of digits and points is a number, if it can be read as one. -/
  | number {run rest : List Char} {ts : List Token} {value : Float} :
      run ≠ [] → (∀ c ∈ run, isNumeric c = true) → (∀ c ∈ rest.head?, isNumeric c = false) →
      number? run = some value → Scans rest ts → Scans (run ++ rest) (.number value :: ts)
  /-- A run of letters is a name. -/
  | name {word rest : List Char} {ts : List Token} :
      word ≠ [] → (∀ c ∈ word, c.isAlpha = true) → (∀ c ∈ rest.head?, c.isAlpha = false) →
      Scans rest ts → Scans (word ++ rest) (ofName (String.ofList word) :: ts)
  /-- A sign or a parenthesis stands alone. -/
  | symbol {c : Char} {rest : List Char} {t : Token} {ts : List Token} :
      ofSymbol? c = some t → Scans rest ts → Scans (c :: rest) (t :: ts)

/-- The characters that are tokens by themselves. -/
def symbols : List Char := ['+', '-', '*', '/', '^', '(', ')']

/-- Neither a number nor a name goes on with the character. -/
def breaks (c : Char) : Bool := !isNumeric c && !c.isAlpha

variable {c : Char} {cs ds run rest : List Char} {t : Token} {ts us : List Token} {position : Nat}

/-! ## Classes of characters -/

/-- No character of a number is a letter. -/
theorem isAlpha_of_isNumeric (h : isNumeric c = true) : c.isAlpha = false := by
  simp only [isNumeric, Numeral.isDigit, Bool.or_eq_true, Bool.and_eq_true, decide_eq_true_eq] at h
  rcases h with ⟨-, hle⟩ | rfl
  · have hbelow (letter : Char) (hletter : 57 < letter.val.toNat) : ¬ letter.val ≤ c.val :=
      Nat.not_le.2 (Nat.lt_of_le_of_lt hle hletter)
    have hupper : c.isUpper = false := decide_eq_false fun hc => hbelow 'A' (by decide) hc.1
    have hlower : c.isLower = false :=
      Bool.and_eq_false_imp.2 fun hc => absurd (of_decide_eq_true hc) (hbelow 'a' (by decide))
    exact Bool.or_eq_false_iff.2 ⟨hupper, hlower⟩
  · decide

theorem isNumeric_of_isAlpha (h : c.isAlpha = true) : isNumeric c = false := by
  by_contra hnumeric
  rw [isAlpha_of_isNumeric (by simpa using hnumeric)] at h
  cases h

theorem breaks_eq_true_iff : breaks c = true ↔ isNumeric c = false ∧ c.isAlpha = false := by
  simp [breaks]

/-- A symbol ends whatever stands before it, and it is no space. -/
theorem breaks_of_ofSymbol? (h : ofSymbol? c = some t) : breaks c = true ∧ c ≠ ' ' := by
  rw [ofSymbol?] at h
  split_ifs at h with hleft hright hop
  · subst hleft
    decide
  · subst hright
    decide
  · obtain ⟨op, hop⟩ := Option.isSome_iff_exists.1 hop
    have hchars : [c] = op.symbol.toList := by
      rw [BinaryOp.symbol_of_ofSymbol? hop, Char.toString_eq_singleton, String.toList_singleton]
    cases op <;> cases hchars <;> decide

/-- The characters that are tokens by themselves. -/
theorem isSome_ofSymbol?_iff : (ofSymbol? c).isSome = true ↔ c ∈ symbols := by
  constructor
  · intro h
    rw [ofSymbol?] at h
    split_ifs at h with hleft hright hop
    · simp [symbols, hleft]
    · simp [symbols, hright]
    · obtain ⟨op, hop⟩ := Option.isSome_iff_exists.1 hop
      have hchars : [c] = op.symbol.toList := by
        rw [BinaryOp.symbol_of_ofSymbol? hop, Char.toString_eq_singleton, String.toList_singleton]
      cases op <;> cases hchars <;> decide
    · cases h
  · intro h
    simp only [symbols, List.mem_cons, List.not_mem_nil, or_false] at h
    rcases h with rfl | rfl | rfl | rfl | rfl | rfl | rfl <;> decide

/-! ## The scan finds the tokens -/

/-- A run ends where a character of another kind follows. -/
theorem takeWhile_append_of_head {p : Char → Bool} (hrun : ∀ c ∈ run, p c = true)
    (hrest : ∀ c ∈ rest.head?, p c = false) :
    (run ++ rest).takeWhile p = run ∧ (run ++ rest).dropWhile p = rest := by
  rw [List.takeWhile_append_of_pos hrun, List.dropWhile_append_of_pos hrun]
  cases rest with
  | nil => simp
  | cons c rest => simp [hrest c rfl]

/-- The scan gives the tokens that the text consists of. -/
theorem Scans.scanFrom_eq (h : Scans cs ts) (position : Nat) : scanFrom position cs = .ok ts := by
  induction h generalizing position with
  | nil => simp [scanFrom]
  | space _ ih => simp [scanFrom, ih]
  | @number run rest ts value hne hrun hrest hvalue _ ih =>
    obtain ⟨c, run, rfl⟩ := List.exists_cons_of_ne_nil hne
    obtain ⟨hc, hrun'⟩ := List.forall_mem_cons.1 hrun
    obtain ⟨htake, hdrop⟩ := takeWhile_append_of_head hrun' hrest
    have hspace : c ≠ ' ' := by
      rintro rfl
      cases hc
    rw [List.cons_append, scanFrom]
    simp only [if_neg hspace, if_pos hc, htake, hdrop, hvalue, ih]
    rfl
  | @name word rest ts hne hword hrest _ ih =>
    obtain ⟨c, word, rfl⟩ := List.exists_cons_of_ne_nil hne
    obtain ⟨hc, hword'⟩ := List.forall_mem_cons.1 hword
    obtain ⟨htake, hdrop⟩ := takeWhile_append_of_head hword' hrest
    have hspace : c ≠ ' ' := by
      rintro rfl
      cases hc
    rw [List.cons_append, scanFrom]
    simp only [if_neg hspace, isNumeric_of_isAlpha hc, if_pos hc, htake, hdrop, ih]
    rfl
  | symbol ht _ ih =>
    obtain ⟨hbreaks, hspace⟩ := breaks_of_ofSymbol? ht
    obtain ⟨hnumeric, halpha⟩ := breaks_eq_true_iff.1 hbreaks
    rw [scanFrom]
    simp only [if_neg hspace, hnumeric, halpha, ht, ih]
    rfl

theorem head?_dropWhile {p : Char → Bool} (cs : List Char) :
    ∀ c ∈ (cs.dropWhile p).head?, p c = false := by
  intro c hc
  have hhead := List.head?_dropWhile_not p cs
  rw [hc] at hhead
  exact hhead

theorem forall_mem_run {p : Char → Bool} (hc : p c = true) :
    ∀ x ∈ c :: cs.takeWhile p, p x = true :=
  List.forall_mem_cons.2 ⟨hc, fun _ hx => List.mem_takeWhile_imp hx⟩

theorem run_append (p : Char → Bool) (c : Char) (cs : List Char) :
    c :: cs.takeWhile p ++ cs.dropWhile p = c :: cs := by
  rw [List.cons_append, List.takeWhile_append_dropWhile]

/-- What the scan gives are tokens that the text consists of. -/
theorem scans_of_scanFrom (h : scanFrom position cs = .ok ts) : Scans cs ts := by
  fun_induction scanFrom position cs generalizing ts with
  | case1 =>
    cases h
    exact .nil
  | case2 _ _ ih => exact .space (ih h)
  | case3 position c cs hspace hnumeric run value hvalue =>
    rename_i ih
    obtain ⟨rest, hrest, rfl⟩ := exists_of_map_cons h
    have hrun : ∀ x ∈ run, isNumeric x = true := forall_mem_run hnumeric
    have hscans := Scans.number (by simp) hrun (head?_dropWhile cs) hvalue (ih hrest)
    rwa [run_append] at hscans
  | case4 => cases h
  | case5 position c cs hspace hnumeric halpha run =>
    rename_i ih
    obtain ⟨rest, hrest, rfl⟩ := exists_of_map_cons h
    have hword : ∀ x ∈ run, x.isAlpha = true := forall_mem_run halpha
    have hscans := Scans.name (by simp) hword (head?_dropWhile cs) (ih hrest)
    rwa [run_append] at hscans
  | case6 _ _ _ _ _ _ _ htoken ih =>
    obtain ⟨rest, hrest, rfl⟩ := exists_of_map_cons h
    exact .symbol htoken (ih hrest)
  | case7 => cases h

/-- The scan finds the tokens of a text, and no others. -/
theorem scanFrom_eq_ok_iff : scanFrom position cs = .ok ts ↔ Scans cs ts :=
  ⟨scans_of_scanFrom, fun h => h.scanFrom_eq position⟩

theorem scan_eq_ok_iff {source : String} : scan source = .ok ts ↔ Scans source.toList ts :=
  scanFrom_eq_ok_iff

/-! ## Putting texts together -/

theorem forall_head?_append {p : Char → Prop} (hcs : ∀ c ∈ cs.head?, p c)
    (hds : ∀ c ∈ ds.head?, p c) : ∀ c ∈ (cs ++ ds).head?, p c := by
  cases cs with
  | nil => exact hds
  | cons c cs => exact hcs

/-- After a text that can be scanned another one may follow, if no number and no name goes on
with what it begins with. -/
theorem Scans.append (h : Scans cs ts) (hds : Scans ds us)
    (hbreaks : ∀ c ∈ ds.head?, breaks c = true) : Scans (cs ++ ds) (ts ++ us) := by
  have hnumeric : ∀ c ∈ ds.head?, isNumeric c = false :=
    fun c hc => (breaks_eq_true_iff.1 (hbreaks c hc)).1
  have halpha : ∀ c ∈ ds.head?, c.isAlpha = false :=
    fun c hc => (breaks_eq_true_iff.1 (hbreaks c hc)).2
  induction h with
  | nil => exact hds
  | space _ ih => exact .space ih
  | number hne hrun hrest hvalue _ ih =>
    rw [List.append_assoc]
    exact .number hne hrun (forall_head?_append hrest hnumeric) hvalue ih
  | name hne hword hrest _ ih =>
    rw [List.append_assoc]
    exact .name hne hword (forall_head?_append hrest halpha) ih
  | symbol ht _ ih => exact .symbol ht ih

end Plotter
