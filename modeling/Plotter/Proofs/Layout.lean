import Plotter.Proofs.Numbers

/-!
# Layouts of a source

A source is written by laying out lexemes in a row with any number of spaces around them, at least
one between two numbers and between two names. The scan is the way back: it finds the token of each
lexeme, and a source that has tokens can be laid out in one way only.
-/

namespace Plotter

open Token (isNumeric number? ofSymbol? scan)

/-- What a lexeme is made of; characters of the first two kinds make runs. -/
inductive LexemeKind where
  | numeric
  | alphabetic
  | single
deriving DecidableEq

/-- A part of a source that makes a token. -/
inductive Lexeme where
  /-- Digits with at most one point among them. -/
  | number (run : List Char) (isNumber : IsNumber run)
  /-- A run of letters. -/
  | name (word : List Char) (nonempty : word ≠ []) (letters : ∀ c ∈ word, c.isAlpha = true)
  /-- An operator or a parenthesis. -/
  | symbol (c : Char) (isSymbol : c ∈ symbols)

/-- The kind of the lexemes that a character occurs in. -/
def LexemeKind.ofChar (c : Char) : LexemeKind :=
  if isNumeric c then .numeric else if c.isAlpha then .alphabetic else .single

namespace Lexeme

/-- The text of a lexeme. -/
def chars : Lexeme → List Char
  | .number run _ => run
  | .name word _ _ => word
  | .symbol c _ => [c]

/-- The kind of a lexeme. -/
def kind : Lexeme → LexemeKind
  | .number _ _ => .numeric
  | .name _ _ _ => .alphabetic
  | .symbol _ _ => .single

/-- The token of a lexeme. -/
def token : Lexeme → Token
  | .number run _ => .number (Numeral.ofRun run).toFloat
  | .name word _ _ =>
    if isUserFunction (String.ofList word) then .function (String.ofList word)
    else .var (String.ofList word)
  | .symbol c _ =>
    if c = '(' then .leftParen else if c = ')' then .rightParen else .operator c.toString

/-- A lexeme of the kind cannot stand right behind this one: both would be taken for one run. -/
def ClingsTo (l : Lexeme) (k : LexemeKind) : Prop := k = l.kind ∧ k ≠ .single

end Lexeme

/-- A lexeme in its place. -/
@[ext]
structure Placed where
  /-- The number of spaces before it. -/
  spaces : Nat
  lexeme : Lexeme

/-- Two neighbours that would be taken for one run have a space between them. -/
def Separated (items : List Placed) : Prop :=
  items.IsChain fun a b => a.lexeme.ClingsTo b.lexeme.kind → 0 < b.spaces

/-- The text of lexemes in their places, with some more spaces at the end. -/
def render : List Placed → Nat → List Char
  | [], trailing => List.replicate trailing ' '
  | item :: items, trailing =>
    List.replicate item.spaces ' ' ++ (item.lexeme.chars ++ render items trailing)

/-- Lexemes in their places, so that each can be told from the next. -/
@[ext]
structure Layout where
  items : List Placed
  /-- The number of spaces behind the last lexeme. -/
  trailing : Nat
  separated : Separated items

/-- The source that is laid out. -/
def Layout.source (l : Layout) : String := String.ofList (render l.items l.trailing)

/-- The tokens of the lexemes, in their order. -/
def Layout.tokens (l : Layout) : List Token := l.items.map (·.lexeme.token)

variable {c : Char} {cs ds : List Char} {ts : List Token} {l m : Lexeme}
  {items others : List Placed} {k n trailing : Nat}

/-! ## The kind of a character -/

theorem ofChar_of_mem_symbols (h : c ∈ symbols) : LexemeKind.ofChar c = .single ∧ c ≠ ' ' := by
  obtain ⟨t, ht⟩ := Option.isSome_iff_exists.1 (isSome_ofSymbol?_iff.2 h)
  obtain ⟨hbreaks, hspace⟩ := breaks_of_ofSymbol? ht
  obtain ⟨hnumeric, halpha⟩ := breaks_eq_true_iff.1 hbreaks
  exact ⟨by simp [LexemeKind.ofChar, hnumeric, halpha], hspace⟩

theorem isNumeric_iff_ofChar : isNumeric c = true ↔ LexemeKind.ofChar c = .numeric := by
  rw [LexemeKind.ofChar]
  split_ifs with hnumeric <;> simp [hnumeric]

theorem isAlpha_iff_ofChar : c.isAlpha = true ↔ LexemeKind.ofChar c = .alphabetic := by
  rw [LexemeKind.ofChar]
  split_ifs with hnumeric halpha
  · simp [isAlpha_of_isNumeric hnumeric]
  · simp [halpha]
  · simp [halpha]

namespace Lexeme

theorem chars_ne_nil (l : Lexeme) : l.chars ≠ [] := by
  cases l with
  | number run h =>
    obtain ⟨c, hc, -⟩ := h.digit
    exact List.ne_nil_of_mem hc
  | name word hne _ => exact hne
  | symbol c _ => exact List.cons_ne_nil c []

theorem ofChar_of_mem (h : c ∈ l.chars) : LexemeKind.ofChar c = l.kind := by
  cases l with
  | number run hrun => exact isNumeric_iff_ofChar.1 (hrun.numeric c h)
  | name word _ hword => exact isAlpha_iff_ofChar.1 (hword c h)
  | symbol d hd =>
    obtain rfl := List.mem_singleton.1 h
    exact (ofChar_of_mem_symbols hd).1

theorem ne_space_of_mem (h : c ∈ l.chars) : c ≠ ' ' := by
  rintro rfl
  have hkind := ofChar_of_mem h
  cases l with
  | number => cases hkind
  | name => cases hkind
  | symbol d hd =>
    exact (ofChar_of_mem_symbols hd).2 (List.mem_singleton.1 h).symm

/-- A lexeme ends where a text goes on with a character that does not cling to it. -/
theorem scans_append (h : Scans cs ts)
    (hhead : ∀ c ∈ cs.head?, ¬ l.ClingsTo (LexemeKind.ofChar c)) :
    Scans (l.chars ++ cs) (l.token :: ts) := by
  cases l with
  | number run hrun =>
    refine .number (chars_ne_nil (.number run hrun)) hrun.numeric (fun c hc => ?_)
      (number?_of_isNumber hrun) h
    rw [← Bool.not_eq_true, isNumeric_iff_ofChar]
    exact fun hkind => hhead c hc ⟨hkind, by simp [hkind]⟩
  | name word hne hword =>
    refine .name hne hword (fun c hc => ?_) h
    rw [← Bool.not_eq_true, isAlpha_iff_ofChar]
    exact fun hkind => hhead c hc ⟨hkind, by simp [hkind]⟩
  | symbol c hc =>
    refine .symbol ?_ h
    simp only [symbols, List.mem_cons, List.not_mem_nil, or_false] at hc
    rcases hc with rfl | rfl | rfl | rfl | rfl | rfl | rfl <;> rfl

end Lexeme

/-! ## Lexemes in a row -/

theorem not_clingsTo_space : ¬ l.ClingsTo (LexemeKind.ofChar ' ') := fun h => h.2 (by decide)

/-- Whether neighbours are separated can be seen from the first character behind the left one. -/
theorem separated_cons_iff (trailing : Nat) : Separated (⟨k, l⟩ :: items) ↔
    Separated items ∧ ∀ c ∈ (render items trailing).head?, ¬ l.ClingsTo (LexemeKind.ofChar c) := by
  cases items with
  | nil =>
    refine iff_of_true (List.isChain_singleton _) ⟨List.isChain_nil, fun c hc => ?_⟩
    obtain ⟨-, rfl⟩ := List.mem_replicate.1 (List.mem_of_mem_head? hc)
    exact not_clingsTo_space
  | cons item items =>
    obtain ⟨spaces, m⟩ := item
    rw [Separated, List.isChain_cons_cons, and_comm, ← Separated]
    refine and_congr_right fun _ => ?_
    cases spaces with
    | zero =>
      obtain ⟨c, cs, hcs⟩ := List.exists_cons_of_ne_nil m.chars_ne_nil
      have hkind : LexemeKind.ofChar c = m.kind := Lexeme.ofChar_of_mem (by simp [hcs])
      simp [render, hcs, hkind]
    | succ spaces =>
      simp [render, List.replicate_succ, not_clingsTo_space]

theorem Scans.spaces (h : Scans cs ts) : Scans (List.replicate k ' ' ++ cs) ts := by
  induction k with
  | zero => exact h
  | succ k ih => exact .space ih

/-- Lexemes in a row have their tokens. -/
theorem scans_render (h : Separated items) :
    Scans (render items trailing) (items.map (·.lexeme.token)) := by
  induction items with
  | nil =>
    have hspaces : Scans (List.replicate trailing ' ' ++ []) [] := Scans.nil.spaces
    rwa [List.append_nil] at hspaces
  | cons item items ih =>
    obtain ⟨hitems, hhead⟩ := (separated_cons_iff trailing).1 h
    exact (item.lexeme.scans_append (ih hitems) hhead).spaces

theorem exists_render_append (h : ∃ items trailing, Separated items ∧ render items trailing = cs)
    (hhead : ∀ c ∈ cs.head?, ¬ l.ClingsTo (LexemeKind.ofChar c)) :
    ∃ items trailing, Separated items ∧ render items trailing = l.chars ++ cs := by
  obtain ⟨items, trailing, hitems, rfl⟩ := h
  exact ⟨⟨0, l⟩ :: items, trailing, (separated_cons_iff trailing).2 ⟨hitems, hhead⟩, rfl⟩

/-- A text with tokens is made of lexemes in a row. -/
theorem Scans.exists_render (h : Scans cs ts) :
    ∃ items trailing, Separated items ∧ render items trailing = cs := by
  induction h with
  | nil => exact ⟨[], 0, List.isChain_nil, rfl⟩
  | space _ ih =>
    obtain ⟨items, trailing, hitems, rfl⟩ := ih
    cases items with
    | nil => exact ⟨[], trailing + 1, hitems, List.replicate_succ⟩
    | cons item items =>
      refine ⟨⟨item.spaces + 1, item.lexeme⟩ :: items, trailing, ?_, ?_⟩
      · exact (separated_cons_iff trailing).2 ((separated_cons_iff trailing).1 hitems)
      · simp [render, List.replicate_succ]
  | @number run rest _ _ _ hrun hrest hvalue _ ih =>
    refine exists_render_append (l := .number run (isNumber_of_number? hrun hvalue)) ih ?_
    rintro c hc ⟨hkind, -⟩
    have hnumeric := hrest c hc
    rw [isNumeric_iff_ofChar.2 hkind] at hnumeric
    cases hnumeric
  | @name word rest _ hne hword hrest _ ih =>
    refine exists_render_append (l := .name word hne hword) ih ?_
    rintro c hc ⟨hkind, -⟩
    have halpha := hrest c hc
    rw [isAlpha_iff_ofChar.2 hkind] at halpha
    cases halpha
  | @symbol c rest t _ ht _ ih =>
    have hc : c ∈ symbols := isSome_ofSymbol?_iff.1 (by simp [ht])
    refine exists_render_append (l := .symbol c hc) ih ?_
    rintro d - ⟨hkind, hsingle⟩
    exact hsingle hkind

/-! ## One layout only -/

namespace Lexeme

/-- A lexeme is determined by its characters. -/
theorem eq_of_chars_eq (h : l.chars = m.chars) : l = m := by
  obtain ⟨c, hc⟩ := List.exists_mem_of_ne_nil _ l.chars_ne_nil
  have hkind : l.kind = m.kind := (ofChar_of_mem hc).symm.trans (ofChar_of_mem (h ▸ hc))
  match l, m, hkind with
  | .number run _, .number _ _, _ =>
    obtain rfl : run = _ := h
    rfl
  | .name word _ _, .name _ _ _, _ =>
    obtain rfl : word = _ := h
    rfl
  | .symbol c _, .symbol d _, _ =>
    obtain rfl : c = d := List.singleton_inj.1 h
    rfl

theorem exists_chars_eq_singleton (h : l.kind = .single) : ∃ c, l.chars = [c] := by
  cases l with
  | number => cases h
  | name => cases h
  | symbol c _ => exact ⟨c, rfl⟩

/-- A lexeme takes in all characters that cling to it. -/
theorem takeWhile_chars_append (hkind : l.kind ≠ .single)
    (hcs : ∀ c ∈ cs.head?, ¬ l.ClingsTo (LexemeKind.ofChar c)) :
    (l.chars ++ cs).takeWhile (fun c => LexemeKind.ofChar c = l.kind) = l.chars := by
  refine (takeWhile_append_of_head (fun c hc => ?_) fun c hc => ?_).1
  · simpa using ofChar_of_mem hc
  · exact decide_eq_false fun h => hcs c hc ⟨h, h ▸ hkind⟩

/-- Two lexemes with which a text begins are the same, if it goes on with nothing that clings to
them. -/
theorem eq_of_append (hcs : ∀ c ∈ cs.head?, ¬ l.ClingsTo (LexemeKind.ofChar c))
    (hds : ∀ c ∈ ds.head?, ¬ m.ClingsTo (LexemeKind.ofChar c))
    (h : l.chars ++ cs = m.chars ++ ds) : l = m ∧ cs = ds := by
  obtain ⟨c, cs', hc⟩ := List.exists_cons_of_ne_nil l.chars_ne_nil
  obtain ⟨d, ds', hd⟩ := List.exists_cons_of_ne_nil m.chars_ne_nil
  have hfirst : c = d := by
    rw [hc, hd] at h
    exact (List.cons.inj h).1
  have hkind : l.kind = m.kind :=
    (ofChar_of_mem (by simp [hc])).symm.trans (ofChar_of_mem (c := c) (by simp [hd, hfirst]))
  have hchars : l.chars = m.chars := by
    -- A symbol ends after one character, also where another symbol follows.
    by_cases hsingle : l.kind = .single
    · obtain ⟨x, hx⟩ := exists_chars_eq_singleton hsingle
      obtain ⟨y, hy⟩ := exists_chars_eq_singleton (hkind ▸ hsingle)
      rw [hx, hy] at h ⊢
      rw [(List.cons.inj h).1]
    · rw [← takeWhile_chars_append hsingle hcs, h, hkind,
        takeWhile_chars_append (hkind ▸ hsingle) hds]
  refine ⟨eq_of_chars_eq hchars, ?_⟩
  rwa [hchars, List.append_cancel_left_eq] at h

end Lexeme

/-- How many spaces a text begins with, and what stands behind them, can be told from the text. -/
theorem eq_of_spaces_append_eq (hcs : ∀ c ∈ cs.head?, c ≠ ' ') (hds : ∀ c ∈ ds.head?, c ≠ ' ')
    (h : List.replicate k ' ' ++ cs = List.replicate n ' ' ++ ds) : k = n ∧ cs = ds := by
  have hspace (j : Nat) : ∀ c ∈ List.replicate j ' ', decide (c = ' ') = true := by
    simp
  obtain ⟨htake, hdrop⟩ :=
    takeWhile_append_of_head (hspace k) fun c hc => decide_eq_false (hcs c hc)
  obtain ⟨htake', hdrop'⟩ :=
    takeWhile_append_of_head (hspace n) fun c hc => decide_eq_false (hds c hc)
  rw [h, htake'] at htake
  rw [h, hdrop'] at hdrop
  exact ⟨by simpa using congrArg List.length htake.symm, hdrop.symm⟩

theorem Lexeme.head?_append_ne_space : ∀ c ∈ (l.chars ++ cs).head?, c ≠ ' ' := by
  intro c hc
  rw [List.head?_append_of_ne_nil _ l.chars_ne_nil] at hc
  exact ne_space_of_mem (List.mem_of_mem_head? hc)

theorem render_nil : render [] trailing = List.replicate trailing ' ' ++ [] := by
  rw [render, List.append_nil]

/-- Different rows of lexemes have different texts. -/
theorem eq_of_render_eq {trailing' : Nat} (hitems : Separated items) (hothers : Separated others)
    (h : render items trailing = render others trailing') :
    items = others ∧ trailing = trailing' := by
  induction items generalizing others with
  | nil =>
    cases others with
    | nil =>
      rw [render_nil, render_nil] at h
      exact ⟨rfl, (eq_of_spaces_append_eq (by simp) (by simp) h).1⟩
    | cons other others =>
      rw [render_nil, render] at h
      obtain ⟨-, hnil⟩ := eq_of_spaces_append_eq (by simp) Lexeme.head?_append_ne_space h
      exact absurd (List.append_eq_nil_iff.1 hnil.symm).1 other.lexeme.chars_ne_nil
  | cons item items ih =>
    cases others with
    | nil =>
      rw [render_nil, render] at h
      obtain ⟨-, hnil⟩ := eq_of_spaces_append_eq Lexeme.head?_append_ne_space (by simp) h
      exact absurd (List.append_eq_nil_iff.1 hnil).1 item.lexeme.chars_ne_nil
    | cons other others =>
      obtain ⟨hitems, hhead⟩ := (separated_cons_iff trailing).1 hitems
      obtain ⟨hothers, hhead'⟩ := (separated_cons_iff trailing').1 hothers
      obtain ⟨hspaces, hrest⟩ :=
        eq_of_spaces_append_eq Lexeme.head?_append_ne_space Lexeme.head?_append_ne_space h
      obtain ⟨hlexeme, hrest⟩ := Lexeme.eq_of_append hhead hhead' hrest
      obtain ⟨rfl, htrailing⟩ := ih hitems hothers hrest
      obtain rfl := Placed.ext hspaces hlexeme
      exact ⟨rfl, htrailing⟩

/-- Every layout has the tokens of its lexemes, and the sources with tokens are those with a layout,
which is the only one then. -/
theorem scan_layout : (∀ l : Layout, scan l.source = .ok l.tokens) ∧
    ∀ source, (∃ ts, scan source = .ok ts) ↔ ∃! l : Layout, l.source = source := by
  have hscan (l : Layout) : scan l.source = .ok l.tokens := by
    rw [scan_eq_ok_iff, Layout.source, String.toList_ofList]
    exact scans_render l.separated
  refine ⟨hscan, fun source => ⟨fun ⟨ts, h⟩ => ?_, fun ⟨l, hl, _⟩ => ⟨l.tokens, hl ▸ hscan l⟩⟩⟩
  obtain ⟨items, trailing, hitems, hrender⟩ := (scan_eq_ok_iff.1 h).exists_render
  refine ⟨⟨items, trailing, hitems⟩, ?_, fun l hl => ?_⟩
  · simp only [Layout.source, hrender, String.ofList_toList]
  · have hsame : render l.items l.trailing = render items trailing := by
      rw [hrender, ← hl, Layout.source, String.toList_ofList]
    obtain ⟨heq, htrailing⟩ := eq_of_render_eq l.separated hitems hsame
    exact Layout.ext heq htrailing

end Plotter
