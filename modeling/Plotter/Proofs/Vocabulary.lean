import Mathlib.Tactic.SplitIfs
import Plotter.Token.Lexer

/-!
# What a user can type

The scan makes functions only of the names that a user can type, and operators only of the symbols
that exist. Negation is not among them: it comes in later, when minus signs are told apart.
-/

namespace Plotter

variable {t : Token} {ts : List Token} {name : String} {position : Nat} {cs : List Char}

/-- Whether the token can come from a source. -/
def Token.isTypable : Token → Bool
  | .function name => isUserFunction name
  | .operator symbol => (BinaryOp.ofSymbol? symbol).isSome
  | _ => true

theorem isTypable_ofName (name : String) : (Token.ofName name).isTypable = true := by
  rw [Token.ofName]
  split_ifs with hname
  · exact hname
  · rfl

/-- Symbols can be typed. -/
theorem isTypable_of_ofSymbol? {c : Char} (h : Token.ofSymbol? c = some t) :
    t.isTypable = true := by
  rw [Token.ofSymbol?] at h
  split_ifs at h with hleft hright hop
  · cases h
    rfl
  · cases h
    rfl
  · cases h
    exact hop

/-- A function that can be typed is one of the known ones, other than negation. -/
theorem exists_of_isUserFunction (h : isUserFunction name = true) :
    ∃ f : UnaryFn, f ≠ .neg ∧ f.name = name := by
  obtain ⟨hsome, hname⟩ : (UnaryFn.ofName? name).isSome = true ∧ name ≠ negationName := by
    simpa [isUserFunction] using h
  obtain ⟨f, hf⟩ := Option.isSome_iff_exists.1 hsome
  have heq := UnaryFn.name_of_ofName? hf
  refine ⟨f, ?_, heq⟩
  rintro rfl
  exact hname heq.symm

theorem exists_of_map_cons {ε : Type} {found : Except ε (List Token)}
    (h : found.map (t :: ·) = .ok ts) : ∃ rest, found = .ok rest ∧ ts = t :: rest := by
  cases found with
  | error e => cases h
  | ok rest =>
    cases h
    exact ⟨rest, rfl, rfl⟩

/-- All tokens of a scanned text can be typed. -/
theorem isTypable_of_scanFrom (h : Token.scanFrom position cs = .ok ts) :
    ∀ t ∈ ts, t.isTypable = true := by
  fun_induction Token.scanFrom position cs generalizing ts with
  | case1 =>
    cases h
    simp
  | case2 _ _ ih => exact ih h
  | case3 =>
    rename_i ih
    obtain ⟨rest, hrest, rfl⟩ := exists_of_map_cons h
    exact List.forall_mem_cons.2 ⟨rfl, ih hrest⟩
  | case4 => cases h
  | case5 =>
    rename_i ih
    obtain ⟨rest, hrest, rfl⟩ := exists_of_map_cons h
    exact List.forall_mem_cons.2 ⟨isTypable_ofName _, ih hrest⟩
  | case6 _ _ _ _ _ _ _ htoken ih =>
    obtain ⟨rest, hrest, rfl⟩ := exists_of_map_cons h
    exact List.forall_mem_cons.2 ⟨isTypable_of_ofSymbol? htoken, ih hrest⟩
  | case7 => cases h

theorem isTypable_of_scan {source : String} (h : Token.scan source = .ok ts) :
    ∀ t ∈ ts, t.isTypable = true :=
  isTypable_of_scanFrom h

end Plotter
