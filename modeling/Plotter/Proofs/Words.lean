import Mathlib.Data.List.SplitBy
import Mathlib.Tactic.SplitIfs

/-!
# Words of a text

A text falls into maximal runs of letters, which are its words, and characters that stand alone.
Words are what the names of functions and variables look like in a source, whatever the compiler
makes of them; they can be listed, and a word can be replaced wherever it stands.
-/

namespace Plotter.Text

/-- The parts of a text, from left to right: its maximal runs of ASCII letters, and every other
character by itself. -/
def parts (cs : List Char) : List (List Char) := cs.splitBy fun a b => a.isAlpha && b.isAlpha

/-- The words of a text, from left to right. -/
def words (cs : List Char) : List (List Char) := (parts cs).filter (·.all Char.isAlpha)

/-- The text in which the part `word` is replaced by `other`, wherever it stands. -/
def replaceWord (word other cs : List Char) : List Char :=
  (parts cs).flatMap fun part => if part = word then other else part

/-- The text has `w` as a run of letters that is not part of a longer one. -/
def HasWord (cs w : List Char) : Prop :=
  ∃ before after, cs = before ++ w ++ after ∧ w ≠ [] ∧ (∀ c ∈ w, c.isAlpha = true) ∧
    (∀ c ∈ before.getLast?, c.isAlpha = false) ∧ ∀ c ∈ after.head?, c.isAlpha = false

variable {c : Char} {cs ds w run word other : List Char}

/-! ## Parts -/

/-- A text may be cut in two next to a character that is no letter. -/
theorem parts_append (h : ∀ x ∈ cs.getLast?, ∀ y ∈ ds.head?, (x.isAlpha && y.isAlpha) = false) :
    parts (cs ++ ds) = parts cs ++ parts ds :=
  List.splitBy_append h

/-- A word is one part. -/
theorem parts_word (hne : w ≠ []) (hw : ∀ c ∈ w, c.isAlpha = true) : parts w = [w] := by
  have hpairs : w.Pairwise fun a b => (a.isAlpha && b.isAlpha) = true :=
    List.pairwise_iff_forall_sublist.2 fun hsub => by
      have hmem := hsub.subset
      simp_all
  exact List.splitBy_of_isChain hne hpairs.isChain

theorem parts_word_append (hne : w ≠ []) (hw : ∀ c ∈ w, c.isAlpha = true)
    (hds : ∀ c ∈ ds.head?, c.isAlpha = false) : parts (w ++ ds) = w :: parts ds := by
  rw [parts_append fun x _ y hy => by simp [hds y hy], parts_word hne hw]
  rfl

/-- Any other character is a part by itself. -/
theorem parts_cons (h : c.isAlpha = false) : parts (c :: cs) = [c] :: parts cs := by
  have hcut : parts ([c] ++ cs) = parts [c] ++ parts cs := by
    refine parts_append fun x hx y _ => ?_
    obtain rfl : c = x := by simpa using hx
    simp [h]
  exact hcut

theorem parts_append_of_not_isAlpha (h : ∀ c ∈ run, c.isAlpha = false) :
    parts (run ++ cs) = run.map ([·]) ++ parts cs := by
  induction run with
  | nil => rfl
  | cons c run ih =>
    obtain ⟨hc, hrun⟩ := List.forall_mem_cons.1 h
    rw [List.cons_append, parts_cons hc, ih hrun]
    rfl

/-! ## Words -/

theorem words_append_of_not_isAlpha (h : ∀ c ∈ run, c.isAlpha = false) :
    words (run ++ cs) = words cs := by
  rw [words, parts_append_of_not_isAlpha h, List.filter_append, List.filter_map]
  have hnone : run.filter ((fun part : List Char => part.all Char.isAlpha) ∘ ([·])) = [] := by
    simpa using h
  rw [hnone]
  rfl

/-- A word that ends before what follows is the first word. -/
theorem words_word_append (hne : w ≠ []) (hw : ∀ c ∈ w, c.isAlpha = true)
    (hds : ∀ c ∈ ds.head?, c.isAlpha = false) : words (w ++ ds) = w :: words ds := by
  rw [words, parts_word_append hne hw hds, List.filter_cons_of_pos (by simpa using hw)]
  rfl

/-- The words of a text are its runs of letters that are not part of longer ones. -/
theorem mem_words_iff : w ∈ words cs ↔ HasWord cs w := by
  constructor
  · intro h
    obtain ⟨hpart, hletters⟩ := List.mem_filter.1 h
    have hw : ∀ c ∈ w, c.isAlpha = true := by simpa using hletters
    obtain ⟨ps, qs, hsplit⟩ := List.append_of_mem hpart
    have hcs : cs = ps.flatten ++ w ++ qs.flatten := by
      have hflatten := List.flatten_splitBy (fun a b : Char => a.isAlpha && b.isAlpha) cs
      rw [← parts, hsplit] at hflatten
      simpa using hflatten.symm
    -- The neighbours of a part are cut off where one of two characters is no letter.
    have hchain := List.isChain_getLast_head_splitBy (fun a b : Char => a.isAlpha && b.isAlpha) cs
    rw [← parts, hsplit] at hchain
    obtain ⟨-, hright, hleft⟩ := List.isChain_append.1 hchain
    refine ⟨ps.flatten, qs.flatten, hcs, List.ne_nil_of_mem_splitBy hpart, hw, ?_, ?_⟩
    · intro c hc
      rcases ps.eq_nil_or_concat with rfl | ⟨ps, p, rfl⟩
      · cases hc
      · obtain ⟨hp, hne, hcut⟩ := hleft p (by simp) w (by simp)
        have hlast : p.getLast hp = c := by simpa [List.getLast?_eq_some_getLast hp] using hc
        simpa [hlast, hw _ (w.head_mem hne)] using hcut
    · intro c hc
      cases qs with
      | nil => cases hc
      | cons q qs =>
        obtain ⟨hne, hq, hcut⟩ := (List.isChain_cons_cons.1 hright).1
        have hhead : q.head hq = c := by simpa [List.head?_eq_some_head hq] using hc
        simpa [hhead, hw _ (w.getLast_mem hne)] using hcut
  · rintro ⟨before, after, rfl, hne, hw, hbefore, hafter⟩
    rw [words, List.append_assoc, parts_append, parts_word_append hne hw hafter]
    · exact List.mem_filter.2 ⟨by simp, by simpa using hw⟩
    · intro x hx y _
      simp [hbefore x hx]

/-! ## Replacing a word -/

/-- A word is replaced as a whole or not at all. -/
theorem replaceWord_word_append (hne : w ≠ []) (hw : ∀ c ∈ w, c.isAlpha = true)
    (hds : ∀ c ∈ ds.head?, c.isAlpha = false) :
    replaceWord word other (w ++ ds) =
      (if w = word then other else w) ++ replaceWord word other ds := by
  rw [replaceWord, parts_word_append hne hw hds]
  rfl

theorem replaceWord_append_of_not_isAlpha (hword : ∀ c ∈ word, c.isAlpha = true)
    (h : ∀ c ∈ run, c.isAlpha = false) :
    replaceWord word other (run ++ cs) = run ++ replaceWord word other cs := by
  rw [replaceWord, parts_append_of_not_isAlpha h, List.flatMap_append, List.flatMap_map]
  have hsame : run.flatMap (fun c => if [c] = word then other else [c]) = run := by
    rw [List.flatMap_congr (g := fun c => [c])]
    · simp
    · intro c hc
      rw [if_neg]
      rintro rfl
      simpa [h c hc] using hword c (by simp)
  rw [hsame]
  rfl

/-- What the replaced text begins with is what the text begins with, or what the other text does. -/
theorem head?_replaceWord {p : Char → Bool} (hne : other ≠ [])
    (hother : ∀ c ∈ other.head?, p c = false) (hcs : ∀ c ∈ cs.head?, p c = false) :
    ∀ c ∈ (replaceWord word other cs).head?, p c = false := by
  have hflatten : (parts cs).flatten = cs := List.flatten_splitBy _ _
  have hnil : [] ∉ parts cs := List.nil_notMem_splitBy _ _
  rw [replaceWord]
  cases hparts : parts cs with
  | nil => simp
  | cons part rest =>
    rw [hparts] at hflatten hnil
    have hpart : part ≠ [] := fun h => hnil (by simp [h])
    rw [List.flatMap_cons]
    split_ifs with heq
    · rwa [List.head?_append_of_ne_nil _ hne]
    · rw [List.head?_append_of_ne_nil _ hpart]
      rwa [← hflatten, List.flatten_cons, List.head?_append_of_ne_nil _ hpart] at hcs

end Plotter.Text
