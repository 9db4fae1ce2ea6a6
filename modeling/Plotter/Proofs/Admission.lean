import Plotter.Proofs.Diagnosis
import Plotter.Proofs.Export

/-!
# What loading lets in

The records of an accepted program have the forms of tokens that could be exported, and the program
is sound; so its functions and operators are the known ones, whatever names the records came with.
Nothing but the schema looks at the names of variables. They are words of ASCII letters, except that
the schema disregards a line break at the end of a name: such a name is let in, line break and all.
-/

namespace Plotter

/-- The text is a word of ASCII letters. -/
def Text.IsLetters (s : String) : Prop :=
  s ≠ "" ∧ ∀ c ∈ s.toList, ('A' ≤ c ∧ c ≤ 'Z') ∨ ('a' ≤ c ∧ c ≤ 'z')

variable {j v w : Json} {a b name s : String} {form : TokenForm} {t : Token} {tree : Tree}
  {program : List Token} {e : Expression}

/-! ## Names -/

theorem Text.isAlpha_iff {c : Char} :
    c.isAlpha = true ↔ ('A' ≤ c ∧ c ≤ 'Z') ∨ ('a' ≤ c ∧ c ≤ 'z') := by
  simp [Char.isAlpha, Char.isUpper, Char.isLower, Char.le_def]

theorem Text.isLetters_iff : IsLetters s ↔ s.toList ≠ [] ∧ ∀ c ∈ s.toList, c.isAlpha = true := by
  simp only [IsLetters, isAlpha_iff, ne_eq, String.toList_eq_nil_iff]

/-- A name is a word of letters, or one with a line break after it. -/
theorem Text.isName_iff : IsName s ↔ IsLetters s ∨ ∃ word, IsLetters word ∧ s = word ++ "\n" := by
  constructor
  · rintro ⟨letters, hne, halpha, heq | heq⟩
    · exact .inl (isLetters_iff.2 (heq ▸ ⟨hne, halpha⟩))
    · refine .inr ⟨String.ofList letters, isLetters_iff.2 ?_, ?_⟩
      · rw [String.toList_ofList]
        exact ⟨hne, halpha⟩
      · rw [← String.toList_inj, heq, String.toList_append, String.toList_ofList]
        rfl
  · rintro (h | ⟨word, h, rfl⟩)
    · obtain ⟨hne, halpha⟩ := isLetters_iff.1 h
      exact ⟨s.toList, hne, halpha, .inl rfl⟩
    · obtain ⟨hne, halpha⟩ := isLetters_iff.1 h
      exact ⟨word.toList, hne, halpha, .inr (by rw [String.toList_append]; rfl)⟩

theorem Text.IsLetters.getLast?_ne (h : IsLetters s) : s.toList.getLast? ≠ some '\n' := by
  intro hlast
  have hbreak : ¬ '\n'.isAlpha = true := by decide
  exact hbreak ((isLetters_iff.1 h).2 _ (List.mem_of_getLast? hlast))

/-- A name that does not end with a line break is a word of letters. -/
theorem Text.IsName.isLetters_iff (h : IsName s) :
    IsLetters s ↔ s.toList.getLast? ≠ some '\n' := by
  constructor
  · exact fun hs => hs.getLast?_ne
  · intro hlast
    rcases isName_iff.1 h with hs | ⟨word, -, rfl⟩
    · exact hs
    · refine absurd ?_ hlast
      rw [String.toList_append]
      exact List.getLast?_concat

/-! ## Forms and tokens -/

theorem Json.IsPair.unique {v' w' : Json} (h : j.IsPair a v b w) (h' : j.IsPair a v' b w') :
    v = v' ∧ w = w' := by
  obtain ⟨hv, hw⟩ := h.member?_eq
  obtain ⟨hv', hw'⟩ := h'.member?_eq
  rw [hv] at hv'
  rw [hw] at hw'
  exact ⟨Option.some.inj hv', Option.some.inj hw'⟩

/-- What stands beside the kind of a record that has a form is admitted by the form of that kind. -/
theorem TokenForm.Fits.admits (form' : TokenForm) (h : form.Fits j)
    (hpair : j.IsPair "kind" (.string form'.kind) form'.field v) : form'.Admits v := by
  obtain ⟨w, hpair', hw⟩ := h
  have hkind : Json.string form.kind = .string form'.kind :=
    Option.some.inj (hpair'.member?_eq.1.symm.trans hpair.member?_eq.1)
  obtain rfl := kind_injective (Json.string.inj hkind)
  obtain ⟨-, rfl⟩ := hpair.unique hpair'
  exact hw

/-- A record that has a form stands for a token that could be exported. -/
theorem Json.Denotes.isExportable (h : j.Denotes t) (hform : form.Fits j) : t.IsExportable := by
  cases h with
  | integer _ _ | real _ => trivial
  | var hpair =>
    obtain ⟨name, heq, hname⟩ := hform.admits .var hpair
    cases heq
    exact hname
  | function hpair =>
    obtain ⟨name, heq, hname⟩ := hform.admits .function hpair
    cases heq
    exact hname
  | operator hpair =>
    obtain ⟨symbol, hsymbol, heq⟩ := hform.admits .operator hpair
    cases heq
    exact hsymbol

theorem Tree.isKnown_of_mem_postorder (h : t ∈ tree.postorder) : t.isKnown = true := by
  induction tree with
  | number _ | var _ =>
    obtain rfl := List.mem_singleton.1 h
    rfl
  | unary f argument ih =>
    rcases List.mem_append.1 h with h | h
    · exact ih h
    · obtain rfl := List.mem_singleton.1 h
      simp [Token.isKnown]
  | binary op left right ihl ihr =>
    rcases List.mem_append.1 h with h | h
    · rcases List.mem_append.1 h with h | h
      · exact ihl h
      · exact ihr h
    · obtain rfl := List.mem_singleton.1 h
      simp [Token.isKnown]

/-- In a sound program every function and every operator is a known one. -/
theorem isKnown_of_check (h : Program.check program = .ok ()) :
    ∀ t ∈ program, t.isKnown = true := by
  obtain ⟨tree, rfl⟩ := Tree.exists_postorder_of_check h
  intro t ht
  exact Tree.isKnown_of_mem_postorder ht

/-! ## Accepted expressions -/

namespace Expression

theorem isExportable_of_load (h : load j = .ok e) : e.IsExportable := by
  obtain ⟨⟨source, records, hj, hne, hforms⟩, ⟨records', hj', htokens⟩, -⟩ := load_eq_ok_iff.1 h
  obtain ⟨-, rfl⟩ := hj.unique hj'
  constructor
  · intro hnil
    rw [hnil] at htokens
    exact hne (List.forall₂_nil_right_iff.1 htokens)
  · intro t ht
    obtain ⟨r, hr, hdenotes⟩ := exists_right_of_forall₂ htokens.flip ht
    obtain ⟨form, hform, -⟩ := hforms r hr
    exact Json.Denotes.isExportable hdenotes hform

theorem check_of_load (h : load j = .ok e) : Program.check e.program = .ok () := by
  obtain ⟨-, -, hdefect⟩ := load_eq_ok_iff.1 h
  rw [Program.defect?] at hdefect
  split at hdefect
  · assumption
  · cases hdefect

end Expression

open Expression

/-- An accepted program has only known functions and operators. The name of a variable is a word of
ASCII letters or such a word with a line break after it; so all of them are words of letters if and
only if none of them ends with a line break. -/
theorem load_admits (h : load j = .ok e) :
    (∀ name, .function name ∈ e.program → ∃ f : UnaryFn, f.name = name) ∧
      (∀ symbol, .operator symbol ∈ e.program → ∃ op : BinaryOp, op.symbol = symbol) ∧
      (∀ name, .var name ∈ e.program →
        Text.IsLetters name ∨ ∃ word, Text.IsLetters word ∧ name = word ++ "\n") ∧
      ((∀ name, .var name ∈ e.program → Text.IsLetters name) ↔
        ∀ name, .var name ∈ e.program → name.toList.getLast? ≠ some '\n') := by
  have hknown := isKnown_of_check (check_of_load h)
  have hname : ∀ name, .var name ∈ e.program → Text.IsName name := by
    intro name hmem
    exact (isExportable_of_load h).2 _ hmem
  refine ⟨?_, ?_, ?_, ?_⟩
  · intro name hmem
    obtain ⟨f, hf⟩ := Option.isSome_iff_exists.1 (hknown _ hmem)
    exact ⟨f, UnaryFn.name_of_ofName? hf⟩
  · intro symbol hmem
    obtain ⟨op, hop⟩ := Option.isSome_iff_exists.1 (hknown _ hmem)
    exact ⟨op, BinaryOp.symbol_of_ofSymbol? hop⟩
  · intro name hmem
    exact Text.isName_iff.1 (hname name hmem)
  · constructor
    · intro hletters name hmem
      exact (hname name hmem).isLetters_iff.1 (hletters name hmem)
    · intro hlast name hmem
      exact (hname name hmem).isLetters_iff.2 (hlast name hmem)

/-- A negation, which cannot be typed, is let in as a function, beside an operator and a variable. -/
theorem load_admits_negation :
    load (toJson ⟨"-2x", [.number 2, Token.negation, .var "x", Token.times]⟩) =
        .ok ⟨"-2x", [.number 2, Token.negation, .var "x", Token.times]⟩ ∧
      (∃ f : UnaryFn, f.name = negationName) ∧ (∃ op : BinaryOp, op.symbol = "*") ∧
      Text.IsLetters "x" := by
  have hload : load (toJson ⟨"-2x", [.number 2, Token.negation, .var "x", Token.times]⟩) =
      .ok ⟨"-2x", [.number 2, Token.negation, .var "x", Token.times]⟩ :=
    load_toJson_of_isExportable (by decide)
  obtain ⟨hfunctions, hoperators, -, hletters⟩ := load_admits hload
  refine ⟨hload, hfunctions _ ?_, hoperators _ ?_, hletters.2 ?_ _ ?_⟩
  · simp [Token.negation]
  · simp [Token.times]
  · intro name hmem
    obtain rfl : name = "x" := by simpa [Token.negation, Token.times] using hmem
    decide
  · simp

/-- The record of a program that is a variable whose name ends with a line break. -/
def lineBreakRecord : Json :=
  .object [("source", .string "x"), ("program", .array [
    .object [("kind", .string "variable"), ("name", .string "x\n")]])]

/-- A name that ends with a line break is let in, although it is no word of letters. -/
theorem load_lineBreakRecord :
    load lineBreakRecord = .ok ⟨"x", [.var "x\n"]⟩ ∧ ¬ Text.IsLetters "x\n" := by
  refine ⟨load_toJson_of_isExportable (e := ⟨"x", [.var "x\n"]⟩) (by decide), fun h => ?_⟩
  exact h.getLast?_ne (by decide)

end Plotter
