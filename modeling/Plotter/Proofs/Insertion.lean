import Plotter.Proofs.FreeVariables
import Plotter.Proofs.Substitution

/-!
# Putting a formula in the place of a variable

A source in parentheses may stand wherever a variable may, unless a number follows the variable
directly. What compiles with the variable compiles with the source in its place, the program of the
source takes the place of the variable in the program, and the value of the source that of the
variable.
-/

namespace Plotter

variable {name : String} {ss ts other program : List Token}

/-! ## Trees -/

namespace Tree

/-- The tree with another one in the place of a variable. -/
def graft (name : String) (other : Tree) : Tree → Tree
  | .number value => .number value
  | .var n => if n = name then other else .var n
  | .unary f argument => .unary f (graft name other argument)
  | .binary op left right => .binary op (graft name other left) (graft name other right)

theorem postorder_graft (u t : Tree) :
    (graft name u t).postorder = substitute name u.postorder t.postorder := by
  induction t with
  | number value => rfl
  | var n =>
    by_cases hn : n = name
    · subst hn
      simp [graft, postorder]
    · have hvar : Token.var n ≠ .var name := by simpa using hn
      rw [graft, if_neg hn, postorder, substitute_cons_of_ne hvar]
      rfl
  | unary f argument ih =>
    have hfunction : Token.function f.name ≠ .var name := by simp
    rw [graft, postorder, postorder, ih, substitute_append, substitute_cons_of_ne hfunction]
    rfl
  | binary op left right ihl ihr =>
    have hoperator : Token.operator op.symbol ≠ .var name := by simp
    rw [graft, postorder, postorder, ihl, ihr, substitute_append, substitute_append,
      substitute_cons_of_ne hoperator]
    rfl

end Tree

/-- The bindings with a new value for one variable. -/
def Bindings.update (b : Bindings) (name : String) (value : Float) : Bindings :=
  fun n => if n = name then some value else b n

/-- A tree in the place of a variable counts as its value does. -/
theorem Tree.value_graft {b : Bindings} {u : Tree} {r : Float} (hr : u.value b = .ok r)
    (t : Tree) : (graft name u t).value b = t.value (b.update name r) := by
  induction t with
  | number value => rfl
  | var n =>
    by_cases hn : n = name
    · simp [graft, value, Bindings.update, hn, hr]
    · simp [graft, value, Bindings.update, hn]
  | unary f argument ih => rw [graft, value, value, ih]
  | binary op left right ihl ihr => rw [graft, value, value, ihl, ihr]

/-! ## Programs -/

theorem programOf_substitute (h : Apart name ts) (hts : Expression.programOf ts = .ok program)
    (hss : Expression.programOf ss = .ok other) :
    Expression.programOf (substitute name (grouped ss) ts) =
      .ok (substitute name other program) := by
  obtain ⟨horder, hcheck⟩ := Expression.programOf_eq_ok_iff.1 hts
  obtain ⟨horder', hcheck'⟩ := Expression.programOf_eq_ok_iff.1 hss
  obtain ⟨t, rfl⟩ := Tree.exists_postorder_of_check hcheck
  obtain ⟨u, rfl⟩ := Tree.exists_postorder_of_check hcheck'
  refine Expression.programOf_eq_ok_iff.2 ⟨?_, ?_⟩
  · have hprepare : Expression.infixTokens (substitute name (grouped ss) ts) =
        substitute name (grouped (Expression.infixTokens ss)) (Expression.infixTokens ts) :=
      prepare_substitute h true
    rw [hprepare]
    exact toPostfix_substitute horder' (isChain_prepare name ts true) horder
  · rw [← Tree.postorder_graft]
    exact Tree.check_postorder _

/-! ## Sources -/

/-- Whether a user can type the name, and it is that of a variable. -/
def isVariableName (name : String) : Bool :=
  name ≠ "" && name.toList.all Char.isAlpha && !isUserFunction name

/-- The source in which another source, in parentheses, takes the place of a name. -/
def insertSource (name other source : String) : String :=
  String.ofList
    (Text.replaceWord name.toList ('(' :: (other.toList ++ [')'])) source.toList)

theorem Scans.group_append {cs rest : List Char} (h : Scans cs ss) (hrest : Scans rest ts) :
    Scans ('(' :: (cs ++ ')' :: rest)) (grouped ss ++ ts) := by
  have hclosing : Scans (cs ++ ')' :: rest) (ss ++ .rightParen :: ts) :=
    h.append (.symbol rfl hrest) (by simp [breaks, Token.isNumeric, Numeral.isDigit])
  simpa [grouped] using Scans.symbol (c := '(') rfl hclosing

theorem ofName_ne_var {other : String} (h : other ≠ name) : Token.ofName other ≠ .var name := by
  rw [Token.ofName]
  split_ifs <;> simp [h]

/-- Replacing a name in a source by a group replaces the variable in its tokens. -/
theorem Scans.replaceWord {cs ds : List Char} (h : Scans cs ts)
    (hname : isVariableName name = true) (hds : Scans ds ss) :
    Scans (Text.replaceWord name.toList ('(' :: (ds ++ [')'])) cs)
      (substitute name (Plotter.grouped ss) ts) := by
  obtain ⟨⟨-, hletters⟩, hvariable⟩ : (name ≠ "" ∧ name.toList.all Char.isAlpha = true) ∧
      isUserFunction name = false := by simpa [isVariableName] using hname
  have hword : ∀ c ∈ name.toList, c.isAlpha = true := by simpa using hletters
  have hhead {p : Char → Bool} {rest : List Char} (hp : p '(' = false)
      (hrest : ∀ c ∈ rest.head?, p c = false) :
      ∀ c ∈ (Text.replaceWord name.toList ('(' :: (ds ++ [')'])) rest).head?, p c = false :=
    Text.head?_replaceWord (by simp) (by simpa using hp) hrest
  induction h with
  | nil => exact .nil
  | @space cs ts _ ih =>
    have hspace : ∀ c ∈ [' '], c.isAlpha = false := List.forall_mem_singleton.2 rfl
    exact Text.replaceWord_append_of_not_isAlpha hword hspace ▸ .space ih
  | @number run rest ts value hne hrun hrest hvalue _ ih =>
    rw [Text.replaceWord_append_of_not_isAlpha hword fun c hc => isAlpha_of_isNumeric (hrun c hc),
      substitute_cons_of_ne (by simp)]
    exact .number hne hrun (hhead (by decide) hrest) hvalue ih
  | @name word rest ts hne hletter hrest _ ih =>
    rw [Text.replaceWord_word_append hne hletter hrest]
    split_ifs with hw
    · have htoken : Token.ofName (String.ofList word) = .var name := by
        rw [hw, String.ofList_toList, Token.ofName, if_neg (by simp [hvariable])]
      rw [htoken, substitute_cons_var]
      simpa using Scans.group_append hds ih
    · have hne' : String.ofList word ≠ name := fun heq => hw (by simp [← heq])
      rw [substitute_cons_of_ne (ofName_ne_var hne')]
      exact .name hne hletter (hhead (by decide) hrest) ih
  | @symbol c rest t ts ht _ ih =>
    have hbreaks := breaks_eq_true_iff.1 (breaks_of_ofSymbol? ht).1
    have hletter : ∀ x ∈ [c], x.isAlpha = false := by simpa using hbreaks.2
    have hvar : t ≠ .var name := by
      rintro rfl
      cases variableName?_of_ofSymbol? ht
    rw [substitute_cons_of_ne hvar]
    exact Text.replaceWord_append_of_not_isAlpha hword hletter ▸ .symbol ht ih

/-- Where a source in parentheses takes the place of a variable that no number follows directly, the
source still compiles, the program of the one takes the place of the variable in the program of the
other, and the value of the one that of the variable. -/
theorem compile_insertSource {a s : String} {ea es : Expression}
    (ha : Expression.compile a = .ok ea) (hs : Expression.compile s = .ok es)
    (hname : isVariableName name = true)
    (hnumber : ∀ ts, Token.scan a = .ok ts → Apart name ts) :
    Expression.compile (insertSource name s a) =
        .ok ⟨insertSource name s a, substitute name es.program ea.program⟩ ∧
      ∀ bindings r, es.evaluate bindings = .ok r →
        Expression.evaluate ⟨insertSource name s a, substitute name es.program ea.program⟩
          bindings = ea.evaluate (bindings.update name r) := by
  obtain ⟨ts, hscan, hprogram, -⟩ := Expression.compile_eq_ok_iff.1 ha
  obtain ⟨ss, hscan', hprogram', -⟩ := Expression.compile_eq_ok_iff.1 hs
  refine ⟨?_, ?_⟩
  · refine Expression.compile_eq_ok_iff.2 ⟨substitute name (grouped ss) ts, ?_, ?_, rfl⟩
    · rw [scan_eq_ok_iff, insertSource, String.toList_ofList]
      exact (scan_eq_ok_iff.1 hscan).replaceWord hname (scan_eq_ok_iff.1 hscan')
    · exact programOf_substitute (hnumber ts hscan) hprogram hprogram'
  · intro bindings r hr
    obtain ⟨t, ht, -⟩ := exists_tree_of_compile ha
    obtain ⟨u, hu, -⟩ := exists_tree_of_compile hs
    have hgraft : (Tree.graft name u t).postorder = substitute name es.program ea.program := by
      rw [Tree.postorder_graft, ht, hu]
    rw [evaluate_eq_value hu] at hr
    calc Expression.evaluate ⟨insertSource name s a, _⟩ bindings
      _ = (Tree.graft name u t).value bindings := evaluate_eq_value hgraft
      _ = t.value (bindings.update name r) := Tree.value_graft hr t
      _ = ea.evaluate (bindings.update name r) := (evaluate_eq_value ht).symm

/-- A negative operand in the place of a factor, of the base of a power and of its exponent. -/
theorem compile_insertSource_negative :
    insertSource "x" "-y" "2x - sin x^x" = "2(-y) - sin (-y)^(-y)" ∧
    Expression.compile "2(-y) - sin (-y)^(-y)" = .ok ⟨"2(-y) - sin (-y)^(-y)",
      [.number 2, .var "y", Token.negation, Token.times, .var "y", Token.negation, .function "sin",
        .var "y", Token.negation, .operator "^", Token.minus]⟩ ∧
    Expression.evaluate ⟨"2(-y) - sin (-y)^(-y)",
      [.number 2, .var "y", Token.negation, Token.times, .var "y", Token.negation, .function "sin",
        .var "y", Token.negation, .operator "^", Token.minus]⟩ (.only "y" 3) =
      Expression.evaluate ⟨"2x - sin x^x", [.number 2, .var "x", Token.times, .var "x",
        .function "sin", .var "x", .operator "^", Token.minus]⟩
        ((Bindings.only "y" 3).update "x" (-3)) := by
  have htext : insertSource "x" "-y" "2x - sin x^x" = "2(-y) - sin (-y)^(-y)" := by decide +kernel
  have ha : Expression.compile "2x - sin x^x" = .ok ⟨"2x - sin x^x", [.number 2, .var "x",
      Token.times, .var "x", .function "sin", .var "x", .operator "^", Token.minus]⟩ := by
    decide +kernel
  have hs : Expression.compile "-y" = .ok ⟨"-y", [.var "y", Token.negation]⟩ := by decide +kernel
  have hscan : Token.scan "2x - sin x^x" = .ok [.number 2, .var "x", Token.minus, .function "sin",
      .var "x", .operator "^", .var "x"] := by decide +kernel
  have hvalue : Expression.evaluate ⟨"-y", [.var "y", Token.negation]⟩ (.only "y" 3) =
      .ok (-3) := by decide +kernel
  have hname : isVariableName "x" = true := by decide +kernel
  obtain ⟨hcompile, heval⟩ := compile_insertSource ha hs hname (by
    intro ts hts
    obtain rfl := Except.ok.inj (hscan.symm.trans hts)
    simp [Apart, Token.minus])
  rw [htext] at hcompile heval
  exact ⟨htext, hcompile, heval _ _ hvalue⟩

end Plotter
