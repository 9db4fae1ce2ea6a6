import Mathlib
import Plotter.Proofs.FreeVariables
import Plotter.Proofs.Loading

/-!
# Exported expressions are read back

The record of a token has the form that its kind calls for, and it stands for the token again. What
the schema asks beyond the form is a matter of names and symbols, and these are as it asks in every
program that was compiled: its functions and operators are the known ones, its variables are words
of the source.
-/

namespace Plotter

/-- The names and symbols are those that a record of the token may have. A parenthesis has no record
in a program. -/
def Token.IsExportable : Token → Prop
  | .number _ => True
  | .var name | .function name => Text.IsName name
  | .operator symbol => symbol ∈ ["+", "-", "*", "/", "^"]
  | .leftParen | .rightParen => False

instance : DecidablePred Token.IsExportable
  | .number _ => .isTrue trivial
  | .var name | .function name =>
    decidable_of_iff (Json.Schema.isWord name = true) Text.isWord_iff
  | .operator symbol => inferInstanceAs (Decidable (symbol ∈ ["+", "-", "*", "/", "^"]))
  | .leftParen | .rightParen => .isFalse id

/-- There is a token, and every one is exportable. -/
def Expression.IsExportable (e : Expression) : Prop :=
  e.program ≠ [] ∧ ∀ t ∈ e.program, t.IsExportable

instance : DecidablePred Expression.IsExportable := fun e =>
  inferInstanceAs (Decidable (e.program ≠ [] ∧ ∀ t ∈ e.program, t.IsExportable))

variable {a b source : String} {v v' w w' : Json} {form form' : TokenForm} {x : Float} {t : Token}
  {ts : List Token} {e : Expression}

/-! ## The form of a record -/

theorem isPair_object_iff (hab : a ≠ b) :
    (Json.object [(a, v), (b, w)]).IsPair a v' b w' ↔ v' = v ∧ w' = w := by
  have hlookup : [(a, v), (b, w)].lookup a = some v ∧ [(a, v), (b, w)].lookup b = some w := by
    simp [List.lookup, beq_false_of_ne hab.symm]
  constructor
  · rintro ⟨ms, hms, hv, hw, -⟩
    cases hms
    rw [hlookup.1] at hv
    rw [hlookup.2] at hw
    cases hv
    cases hw
    exact ⟨rfl, rfl⟩
  · rintro ⟨rfl, rfl⟩
    exact ⟨_, rfl, hlookup.1, hlookup.2, by simp⟩

namespace TokenForm

/-- A record of a kind fits the form of that kind if the form admits its other member. -/
theorem fits_object_iff :
    form.Fits (.object [("kind", .string form.kind), (form.field, v)]) ↔ form.Admits v := by
  have hfield : "kind" ≠ form.field := by cases form <;> decide
  constructor
  · rintro ⟨v', hpair, hv'⟩
    obtain ⟨-, rfl⟩ := (isPair_object_iff hfield).1 hpair
    exact hv'
  · intro hv
    exact ⟨v, (isPair_object_iff hfield).2 ⟨rfl, rfl⟩, hv⟩

/-- The form that a record fits is the one of its kind. -/
theorem Fits.kind_eq {kind : String} {ms : List (String × Json)}
    (h : form.Fits (.object (("kind", .string kind) :: ms))) : form.kind = kind := by
  obtain ⟨v, ⟨ms', hms, hkind, -⟩, -⟩ := h
  cases hms
  rw [List.lookup_cons_self] at hkind
  exact (Json.string.inj (Option.some.inj hkind)).symm

theorem existsUnique_fits_object_iff (form : TokenForm) :
    (∃! form' : TokenForm, form'.Fits (.object [("kind", .string form.kind), (form.field, v)])) ↔
      form.Admits v := by
  constructor
  · rintro ⟨form', h, -⟩
    obtain rfl := kind_injective h.kind_eq
    exact fits_object_iff.1 h
  · intro hv
    exact ⟨form, fits_object_iff.2 hv, fun form' h => h.unique (fits_object_iff.2 hv)⟩

end TokenForm

/-- The record of a token fits one form, and no other, if and only if the token can be exported. -/
theorem existsUnique_fits_toJson_iff :
    (∃! form : TokenForm, form.Fits t.toJson) ↔ t.IsExportable := by
  -- No form has the kind of a parenthesis.
  have hparen (kind : String) (hkind : ∀ form : TokenForm, form.kind ≠ kind) :
      ¬ ∃! form : TokenForm, form.Fits (.object [("kind", .string kind)]) := by
    rintro ⟨form, h, -⟩
    exact hkind form h.kind_eq
  cases t with
  | number x =>
    exact (TokenForm.existsUnique_fits_object_iff .number).trans
      (iff_of_true (.inr ⟨x, rfl⟩) trivial)
  | var name =>
    refine (TokenForm.existsUnique_fits_object_iff .var).trans ?_
    simp [TokenForm.Admits, Token.IsExportable]
  | function name =>
    refine (TokenForm.existsUnique_fits_object_iff .function).trans ?_
    simp [TokenForm.Admits, Token.IsExportable]
  | operator symbol =>
    refine (TokenForm.existsUnique_fits_object_iff .operator).trans ?_
    simp [TokenForm.Admits, Token.IsExportable]
  | leftParen => exact iff_of_false (hparen _ fun form => by cases form <;> decide) id
  | rightParen => exact iff_of_false (hparen _ fun form => by cases form <;> decide) id

/-- The record of a token that can be exported stands for that token. -/
theorem denotes_toJson (h : t.IsExportable) : t.toJson.Denotes t := by
  cases t with
  | number x => exact .real ((isPair_object_iff (by decide)).2 ⟨rfl, rfl⟩)
  | var name => exact .var ((isPair_object_iff (by decide)).2 ⟨rfl, rfl⟩)
  | function name => exact .function ((isPair_object_iff (by decide)).2 ⟨rfl, rfl⟩)
  | operator symbol => exact .operator ((isPair_object_iff (by decide)).2 ⟨rfl, rfl⟩)
  | leftParen => exact h.elim
  | rightParen => exact h.elim

/-! ## Exported expressions -/

namespace Expression

theorem isExpression_toJson (e : Expression) :
    e.toJson.IsExpression e.source (e.program.map Token.toJson) :=
  (isPair_object_iff (by decide)).2 ⟨rfl, rfl⟩

/-- The record of an expression conforms to the schema if and only if its tokens can be exported. -/
theorem conforms_toJson_iff : e.toJson.Conforms ↔ e.IsExportable := by
  constructor
  · rintro ⟨source, records, hj, hne, hforms⟩
    obtain ⟨rfl, rfl⟩ := e.isExpression_toJson.unique hj
    refine ⟨by simpa using hne, fun t ht => ?_⟩
    exact existsUnique_fits_toJson_iff.1 (hforms _ (List.mem_map_of_mem ht))
  · rintro ⟨hne, hall⟩
    refine ⟨_, _, e.isExpression_toJson, by simpa using hne, ?_⟩
    rw [List.forall_mem_map]
    exact fun t ht => existsUnique_fits_toJson_iff.2 (hall t ht)

/-- Then it stands for the same source and the same tokens. -/
theorem decodes_toJson (h : e.IsExportable) : e.toJson.Decodes e.source e.program := by
  refine ⟨_, e.isExpression_toJson, ?_⟩
  rw [List.forall₂_map_left_iff, List.forall₂_same]
  exact fun t ht => denotes_toJson (h.2 t ht)

/-- Loading the record of such an expression gives it back, if its program has no defect. -/
theorem load_toJson_of_isExportable (h : e.IsExportable) :
    load e.toJson =
      match Program.defect? e.program with
      | some d => .error (.malformed d)
      | none => .ok e :=
  load_of_decodes (conforms_toJson_iff.2 h) (decodes_toJson h)

end Expression

/-! ## Agreement with itself -/

namespace Token

/-- A token agrees with itself unless it holds the value that is not a number. -/
theorem agrees_self_iff : t.agrees t = true ↔ ∀ x, t = .number x → x.isNaN = false := by
  cases t <;> simp [agrees]

theorem listAgrees_self_iff :
    listAgrees ts ts = true ↔ ∀ x, .number x ∈ ts → x.isNaN = false := by
  induction ts with
  | nil => simp [listAgrees]
  | cons t ts ih =>
    rw [listAgrees, Bool.and_eq_true, agrees_self_iff, ih]
    simp only [List.mem_cons, or_imp, forall_and, eq_comm]

end Token

/-- An expression agrees with itself unless one of its tokens holds that value. -/
theorem Expression.agrees_self_iff :
    e.agrees e = true ↔ ∀ x, .number x ∈ e.program → x.isNaN = false := by
  simp [agrees, Token.listAgrees_self_iff]

/-! ## Compiled programs -/

/-- No number in a text is the value that is not a number. -/
theorem Scans.isNaN_of_number_mem {cs : List Char} (h : Scans cs ts) (hx : .number x ∈ ts) :
    x.isNaN = false := by
  induction h with
  | nil => cases hx
  | space _ ih => exact ih hx
  | @number run rest ts value _ _ _ hvalue _ ih =>
    rcases List.mem_cons.1 hx with heq | hx
    · cases heq
      obtain ⟨n, -, rfl⟩ := Option.map_eq_some_iff.1 hvalue
      exact n.isRounded_toFloat.not_nan
    · exact ih hx
  | @name word rest ts _ _ _ _ ih =>
    rcases List.mem_cons.1 hx with heq | hx
    · rw [Token.ofName] at heq
      split_ifs at heq
    · exact ih hx
  | @symbol c rest t ts ht _ ih =>
    rcases List.mem_cons.1 hx with rfl | hx
    · rw [Token.ofSymbol?] at ht
      split_ifs at ht <;> cases ht
    · exact ih hx

theorem Text.isName_of_mem_variableNames {cs : List Char} {name : String}
    (h : name ∈ variableNames cs) : IsName name := by
  obtain ⟨pre, post, -, hne, hword, -, -⟩ := (mem_variableNames_iff.1 h).1
  exact ⟨_, hne, hword, .inl rfl⟩

theorem UnaryFn.isName_name (f : UnaryFn) : Text.IsName f.name :=
  Text.isWord_iff.1 (by cases f <;> rfl)

theorem BinaryOp.symbol_mem (op : BinaryOp) : op.symbol ∈ ["+", "-", "*", "/", "^"] := by
  cases op <;> decide

/-- A program is exportable if its variables have names that the schema allows. -/
theorem Tree.isExportable_of_leafNames {tree : Tree}
    (h : ∀ name ∈ tree.leafNames, Text.IsName name) : ∀ t ∈ tree.postorder, t.IsExportable := by
  induction tree with
  | number x => exact List.forall_mem_singleton.2 trivial
  | var name => exact List.forall_mem_singleton.2 (h name List.mem_cons_self)
  | unary f argument ih =>
    exact List.forall_mem_append.2 ⟨ih h, List.forall_mem_singleton.2 f.isName_name⟩
  | binary op left right ihl ihr =>
    obtain ⟨hleft, hright⟩ := List.forall_mem_append.1 h
    exact List.forall_mem_append.2 ⟨List.forall_mem_append.2 ⟨ihl hleft, ihr hright⟩,
      List.forall_mem_singleton.2 op.symbol_mem⟩

namespace Expression

/-- Every compiled expression can be exported. -/
theorem isExportable_of_compile (h : compile source = .ok e) : e.IsExportable := by
  obtain ⟨tree, htree, hleaves⟩ := exists_tree_of_compile h
  have hnames : ∀ name ∈ tree.leafNames, Text.IsName name := by
    rw [hleaves]
    exact fun name hname => Text.isName_of_mem_variableNames hname
  refine ⟨?_, ?_⟩
  · rw [← htree]
    exact tree.postorder_ne_nil
  · rw [← htree]
    exact Tree.isExportable_of_leafNames hnames

theorem isNaN_of_compile (h : compile source = .ok e) (hx : .number x ∈ e.program) :
    x.isNaN = false := by
  obtain ⟨ts, hscan, hprogram, -⟩ := compile_eq_ok_iff.1 h
  have hoperand : .number x ∈ operands e.program := List.mem_filter.2 ⟨hx, rfl⟩
  rw [operands_of_programOf hprogram] at hoperand
  exact (scan_eq_ok_iff.1 hscan).isNaN_of_number_mem (List.mem_filter.1 hoperand).1

end Expression

open Expression

/-- An expression of numbers is not admitted by the schema when exported if it has no token, or one
with a name or symbol that the schema has no place for. Otherwise it is read back, unless its program
has a defect, and is the same as before. Whatever was compiled is read back. -/
theorem load_toJson :
    (∀ e : Expression, (∀ x, .number x ∈ e.program → x.isNaN = false) →
      (¬ e.IsExportable → ∃ violations, load e.toJson = .error (.invalid violations)) ∧
      (e.IsExportable → ∀ d, Program.defect? e.program = some d →
        load e.toJson = .error (.malformed d)) ∧
      (e.IsExportable → Program.defect? e.program = none →
        load e.toJson = .ok e ∧ e.agrees e = true)) ∧
    ∀ source e, compile source = .ok e →
      conforms e.toJson = true ∧ load e.toJson = .ok e ∧ e.agrees e = true := by
  refine ⟨fun e hnumbers => ⟨fun h => ?_, fun h d hdefect => ?_, fun h hdefect => ⟨?_, ?_⟩⟩, ?_⟩
  · exact ⟨_, load_of_not_conforms fun hj => h (conforms_toJson_iff.1 hj)⟩
  · rw [load_toJson_of_isExportable h, hdefect]
  · rw [load_toJson_of_isExportable h, hdefect]
  · exact agrees_self_iff.2 hnumbers
  · intro source e hcompile
    have hexportable := isExportable_of_compile hcompile
    obtain ⟨ts, -, hprogram, -⟩ := compile_eq_ok_iff.1 hcompile
    have hdefect : Program.defect? e.program = none := by
      rw [Program.defect?, (programOf_eq_ok_iff.1 hprogram).2]
    refine ⟨?_, ?_, ?_⟩
    · rw [conforms, schema_eq_nil_iff.2 (conforms_toJson_iff.2 hexportable)]
      rfl
    · rw [load_toJson_of_isExportable hexportable, hdefect]
    · exact agrees_self_iff.2 fun x => isNaN_of_compile hcompile

/-- A parenthesis has no record, a lone operator lacks an operand, and negation, which cannot be typed,
is read back beside what was compiled. -/
theorem load_toJson_negation :
    (∃ violations, load (toJson ⟨"x)", [.var "x", .rightParen]⟩) = .error (.invalid violations)) ∧
      load (toJson ⟨"x+", [.var "x", .operator "+"]⟩) =
        .error (.malformed (.missingOperand "+")) ∧
      load (toJson ⟨"-2", [.number 2, Token.negation]⟩) = .ok ⟨"-2", [.number 2, Token.negation]⟩ ∧
      ∃ e, compile "-2x" = .ok e ∧ load e.toJson = .ok e := by
  have htwo : ∀ x, .number x ∈ [.number 2, Token.negation] → x.isNaN = false := by
    intro x hx
    obtain rfl : x = 2 := by simpa [Token.negation] using hx
    decide +kernel
  have hcompile : compile "-2x" = .ok ⟨"-2x",
      [.number 2, Token.negation, .var "x", Token.times]⟩ := by decide +kernel
  refine ⟨?_, ?_, ?_, _, hcompile, (load_toJson.2 _ _ hcompile).2.1⟩
  · exact (load_toJson.1 ⟨"x)", [.var "x", .rightParen]⟩ (by simp)).1 (by decide)
  · exact (load_toJson.1 ⟨"x+", [.var "x", .operator "+"]⟩ (by simp)).2.1 (by decide) _ rfl
  · exact ((load_toJson.1 ⟨"-2", [.number 2, Token.negation]⟩ htwo).2.2 (by decide) rfl).1

end Plotter
