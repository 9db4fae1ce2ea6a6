import Plotter.Proofs.Operands
import Plotter.Proofs.Scanning

/-!
# The variables of a source

The variables of a compiled expression are the words of its source that are no functions, and the
leaves of its tree have them in the order of the source. What an expression is worth depends on
their values only; if some have none, the error names the first of these in the source.
-/

namespace Plotter

open Expression (variableName?)

/-- The words of a text that are no functions, from left to right. -/
def Text.variableNames (cs : List Char) : List String :=
  ((Text.words cs).map String.ofList).filter fun name => !isUserFunction name

variable {b b' bindings : Bindings} {source name : String} {cs ds run w : List Char} {t : Token}
  {ts program : List Token} {e : Expression}

/-! ## Variables of a text -/

namespace Text

theorem variableNames_append_of_not_isAlpha (h : ∀ c ∈ run, c.isAlpha = false) :
    variableNames (run ++ cs) = variableNames cs := by
  rw [variableNames, words_append_of_not_isAlpha h]
  rfl

theorem variableNames_word_append (hne : w ≠ []) (hw : ∀ c ∈ w, c.isAlpha = true)
    (hds : ∀ c ∈ ds.head?, c.isAlpha = false) :
    variableNames (w ++ ds) =
      [String.ofList w].filter (fun name => !isUserFunction name) ++ variableNames ds := by
  rw [variableNames, words_word_append hne hw hds, List.map_cons, ← List.singleton_append,
    List.filter_append]
  rfl

/-- The variables of a text are its words that are not functions. -/
theorem mem_variableNames_iff :
    name ∈ variableNames cs ↔ HasWord cs name.toList ∧ isUserFunction name = false := by
  rw [variableNames, List.mem_filter, List.mem_map, ← mem_words_iff]
  constructor
  · rintro ⟨⟨w, hw, rfl⟩, hname⟩
    exact ⟨by simpa using hw, by simpa using hname⟩
  · rintro ⟨hw, hname⟩
    exact ⟨⟨_, hw, String.ofList_toList⟩, by simp [hname]⟩

end Text

theorem variableName?_of_ofSymbol? {c : Char} (h : Token.ofSymbol? c = some t) :
    variableName? t = none := by
  rw [Token.ofSymbol?] at h
  split_ifs at h <;> cases h <;> rfl

theorem filterMap_variableName?_ofName (name : String) :
    [Token.ofName name].filterMap variableName? =
      [name].filter fun name => !isUserFunction name := by
  rw [Token.ofName]
  split_ifs with hname
  · simp [hname, variableName?]
  · simp [hname, variableName?]

/-- The variables among the tokens of a text are those of the text. -/
theorem Scans.filterMap_variableName? (h : Scans cs ts) :
    ts.filterMap variableName? = Text.variableNames cs := by
  induction h with
  | nil => rfl
  | @space cs ts _ ih =>
    have hspace : Text.variableNames ([' '] ++ cs) = Text.variableNames cs :=
      Text.variableNames_append_of_not_isAlpha (List.forall_mem_singleton.2 rfl)
    exact ih.trans hspace.symm
  | number _ hrun _ _ _ ih =>
    rw [Text.variableNames_append_of_not_isAlpha fun c hc => isAlpha_of_isNumeric (hrun c hc), ← ih]
    rfl
  | @name word rest ts hne hword hrest _ ih =>
    rw [Text.variableNames_word_append hne hword hrest, ← List.singleton_append,
      List.filterMap_append, filterMap_variableName?_ofName, ih]
  | @symbol c rest t ts ht _ ih =>
    have hbreaks := breaks_eq_true_iff.1 (breaks_of_ofSymbol? ht).1
    have hsymbol : Text.variableNames ([c] ++ rest) = Text.variableNames rest :=
      Text.variableNames_append_of_not_isAlpha (by simpa using hbreaks.2)
    rw [List.filterMap_cons_none (variableName?_of_ofSymbol? ht)]
    exact ih.trans hsymbol.symm

/-! ## Leaves of a tree -/

namespace Tree

theorem leafNames_eq_filterMap (t : Tree) : t.leafNames = t.postorder.filterMap variableName? := by
  induction t with
  | number value => rfl
  | var name => rfl
  | unary f argument ih =>
    rw [postorder, List.filterMap_append, ← ih]
    exact (List.append_nil _).symm
  | binary op left right ihl ihr =>
    rw [postorder, List.filterMap_append, List.filterMap_append, ← ihl, ← ihr]
    exact (List.append_nil _).symm

/-- The value of a tree depends on the values of its leaves only. -/
theorem value_congr {t : Tree} (h : ∀ name ∈ t.leafNames, b name = b' name) :
    t.value b = t.value b' := by
  induction t with
  | number value => rfl
  | var name => rw [value, value, h name (by simp [leafNames])]
  | unary f argument ih => rw [value, value, ih h]
  | binary op left right ihl ihr =>
    rw [value, value, ihl fun name hname => h name (List.mem_append_left _ hname),
      ihr fun name hname => h name (List.mem_append_right _ hname)]

theorem exists_value_iff {t : Tree} :
    (∃ x, t.value bindings = .ok x) ↔ ∀ name ∈ t.leafNames, bindings.lacks name = false := by
  constructor
  · rintro ⟨x, hx⟩
    cases hfind : t.leafNames.find? bindings.lacks with
    | none => simpa using hfind
    | some name =>
      rw [value_of_find?_eq_some hfind] at hx
      cases hx
  · exact exists_value_of_bound

end Tree

/-! ## Compiled expressions -/

theorem filterMap_variableName?_operands (ts : List Token) :
    (operands ts).filterMap variableName? = ts.filterMap variableName? := by
  rw [operands, List.filterMap_filter]
  congr 1
  funext t
  cases t <;> rfl

/-- A compiled program is the postorder of a tree whose leaves are the variables of the source. -/
theorem exists_tree_of_compile (h : Expression.compile source = .ok e) :
    ∃ t : Tree, t.postorder = e.program ∧ t.leafNames = Text.variableNames source.toList := by
  obtain ⟨ts, hscan, hprogram, -⟩ := Expression.compile_eq_ok_iff.1 h
  obtain ⟨-, hcheck⟩ := Expression.programOf_eq_ok_iff.1 hprogram
  obtain ⟨t, ht⟩ := Tree.exists_postorder_of_check hcheck
  refine ⟨t, ht, ?_⟩
  calc t.leafNames
    _ = e.program.filterMap variableName? := by rw [Tree.leafNames_eq_filterMap, ht]
    _ = ts.filterMap variableName? := by
      rw [← filterMap_variableName?_operands, operands_of_programOf hprogram,
        filterMap_variableName?_operands]
    _ = Text.variableNames source.toList := (scan_eq_ok_iff.1 hscan).filterMap_variableName?

theorem mem_freeVariables_iff : name ∈ e.freeVariables ↔ .var name ∈ e.program := by
  rw [Expression.freeVariables, List.mem_mergeSort, List.mem_eraseDups, List.mem_filterMap]
  constructor
  · rintro ⟨t, ht, hname⟩
    cases t <;> cases hname
    exact ht
  · intro h
    exact ⟨_, h, rfl⟩

theorem evaluate_eq_value {t : Tree} (h : t.postorder = e.program) :
    e.evaluate bindings = t.value bindings := by
  rw [Expression.evaluate, ← h, Tree.eval_postorder]

/-- What compiles is never malformed. -/
theorem evaluate_ne_malformed (h : Expression.compile source = .ok e) (bindings : Bindings)
    (d : Defect) : e.evaluate bindings ≠ .error (.malformed d) := by
  obtain ⟨t, ht, -⟩ := exists_tree_of_compile h
  rw [evaluate_eq_value ht]
  intro hd
  obtain ⟨name, hname, -⟩ := Tree.value_eq_error_iff.1 hd
  cases hname

/-- Evaluating a compiled expression never finds its program malformed. It has a value if and only
if all its variables have one; otherwise the error names the first word of the source, from left to
right, that is a variable without a value. Only the values of the free variables matter, and these
are the words of the source that are no functions. -/
theorem evaluate_of_compile (h : Expression.compile source = .ok e) :
    (∀ bindings : Bindings,
      (∀ d, e.evaluate bindings ≠ .error (.malformed d)) ∧
      ((∃ x, e.evaluate bindings = .ok x) ↔
        ∀ name ∈ e.freeVariables, bindings.lacks name = false) ∧
      (¬ (∀ name ∈ e.freeVariables, bindings.lacks name = false) →
        ∃ name, (Text.variableNames source.toList).find? bindings.lacks = some name ∧
          e.evaluate bindings = .error (.unbound name))) ∧
    (∀ b b' : Bindings, (∀ name ∈ e.freeVariables, b name = b' name) →
      e.evaluate b = e.evaluate b') ∧
    ∀ name, name ∈ e.freeVariables ↔
      Text.HasWord source.toList name.toList ∧ isUserFunction name = false := by
  obtain ⟨t, ht, hleaves⟩ := exists_tree_of_compile h
  have hfree (name : String) : name ∈ e.freeVariables ↔ name ∈ t.leafNames := by
    rw [mem_freeVariables_iff, ← ht, Tree.mem_leafNames_iff]
  refine ⟨?_, ?_, ?_⟩
  · intro bindings
    have hbound : (∀ name ∈ e.freeVariables, bindings.lacks name = false) ↔
        ∀ name ∈ t.leafNames, bindings.lacks name = false := by simp only [hfree]
    refine ⟨evaluate_ne_malformed h bindings, ?_, ?_⟩
    · rw [evaluate_eq_value ht, hbound, Tree.exists_value_iff]
    · intro hmissing
      rw [evaluate_eq_value ht, ← hleaves]
      cases hfind : t.leafNames.find? bindings.lacks with
      | none => exact absurd (hbound.2 (by simpa using hfind)) hmissing
      | some first => exact ⟨first, rfl, Tree.value_of_find?_eq_some hfind⟩
  · intro b b' hagree
    rw [evaluate_eq_value ht, evaluate_eq_value ht]
    exact Tree.value_congr fun name hname => hagree name ((hfree name).2 hname)
  · intro name
    rw [hfree, hleaves, Text.mem_variableNames_iff]

/-- The variable `neg` is no negation; where neither it nor `y` has a value, the error names the
former, which comes first in the source. -/
theorem evaluate_unbound_neg :
    ∃ e, Expression.compile "2x^-sin(neg) - y" = .ok e ∧
      e.evaluate (.only "x" 1) = .error (.unbound "neg") := by
  have hcompile : Expression.compile "2x^-sin(neg) - y" = .ok ⟨"2x^-sin(neg) - y",
      [.number 2, .var "x", .var "neg", .function "sin", Token.negation, .operator "^", Token.times,
        .var "y", Token.minus]⟩ := by decide +kernel
  obtain ⟨-, -, hunbound⟩ := (evaluate_of_compile hcompile).1 (.only "x" 1)
  obtain ⟨name, hname, herror⟩ := hunbound fun hbound =>
    absurd (hbound "neg" (mem_freeVariables_iff.2 (by simp))) (by decide)
  have hfirst : (Text.variableNames "2x^-sin(neg) - y".toList).find?
      (Bindings.only "x" 1).lacks = some "neg" := by decide +kernel
  obtain rfl : name = "neg" := Option.some.inj (hname.symm.trans hfirst)
  exact ⟨_, hcompile, herror⟩

end Plotter
