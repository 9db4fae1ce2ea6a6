import Plotter.Proofs.FirstFault
import Plotter.Proofs.Scanning
import Plotter.Proofs.Signs

/-!
# What can be wrong with a source

A source that falls into tokens does not compile for one of two reasons: its parentheses do not
match, or an operand is missing or left over. Nothing else can go wrong, since the tokens of a
source, and the signs that are put between them, all denote something.
-/

namespace Plotter

open Expression (infixTokens)

/-- The parenthesis that a character is, if it is one. -/
def Paren.ofChar? (c : Char) : Option Paren :=
  if c = '(' then some .left else if c = ')' then some .right else none

/-- The parenthesis that a token is, if it is one. -/
def Token.paren? : Token → Option Paren
  | .leftParen => some .left
  | .rightParen => some .right
  | _ => none

/-- Some beginning closes more parentheses than it opens. -/
def Paren.Overclosed (ps : List Paren) : Prop :=
  ∃ before, before <+: ps ∧ before.count .left < before.count .right

/-- Some beginning of the text closes more parentheses than it opens. -/
def Text.Overcloses (cs : List Char) : Prop :=
  ∃ before, before <+: cs ∧ before.count '(' < before.count ')'

/-- The parentheses of the text match. -/
structure Text.Balanced (cs : List Char) : Prop where
  /-- None is closed before it is opened. -/
  opened_first : ¬ Overcloses cs
  /-- As many are closed as are opened. -/
  all_closed : cs.count '(' = cs.count ')'

/-- Whether the name or the symbol of the token, if it has one, denotes something. -/
def Token.isKnown : Token → Bool
  | .function name => (UnaryFn.ofName? name).isSome
  | .operator symbol => (BinaryOp.ofSymbol? symbol).isSome
  | _ => true

/-- The defects that the program of a source can have: `operator … is missing an operand`,
`function … is missing an argument`, `empty expression`, and `expression leaves … values` for two
values or more. -/
def Defect.Arises : Defect → Prop
  | .missingOperand symbol => (BinaryOp.ofSymbol? symbol).isSome = true
  | .missingArgument name => (UnaryFn.ofName? name).isSome = true
  | .empty => True
  | .leaves count => 2 ≤ count
  | .unknownOperator _ | .unknownFunction _ | .parenthesis _ => False

variable {source : String} {cs : List Char} {c : Char} {t : Token} {ts program : List Token}
  {depth n : Nat} {d : Defect}

/-! ## Parentheses of a text and of its tokens -/

theorem Paren.ofChar?_eq_none (hleft : c ≠ '(') (hright : c ≠ ')') : Paren.ofChar? c = none := by
  rw [Paren.ofChar?, if_neg hleft, if_neg hright]

/-- A character has the parenthesis of its token. -/
theorem paren?_of_ofSymbol? (h : Token.ofSymbol? c = some t) : t.paren? = Paren.ofChar? c := by
  rw [Token.ofSymbol?] at h
  split_ifs at h with hleft hright hop
  · cases h
    simp [Token.paren?, Paren.ofChar?, hleft]
  · cases h
    simp [Token.paren?, Paren.ofChar?, hright]
  · cases h
    exact (Paren.ofChar?_eq_none hleft hright).symm

theorem filterMap_ofChar?_eq_nil {run : List Char} {p : Char → Bool} (hrun : ∀ c ∈ run, p c = true)
    (hleft : p '(' = false) (hright : p ')' = false) : run.filterMap Paren.ofChar? = [] := by
  rw [List.filterMap_eq_nil_iff]
  intro c hc
  have hpc := hrun c hc
  refine Paren.ofChar?_eq_none ?_ ?_
  · rintro rfl
    simp [hleft] at hpc
  · rintro rfl
    simp [hright] at hpc

/-- The parentheses of a text are those of its tokens. -/
theorem Scans.filterMap_paren? (h : Scans cs ts) :
    ts.filterMap Token.paren? = cs.filterMap Paren.ofChar? := by
  induction h with
  | nil => rfl
  | space _ ih =>
    rw [List.filterMap_cons_none (Paren.ofChar?_eq_none (by decide) (by decide))]
    exact ih
  | number _ hrun _ _ _ ih =>
    rw [List.filterMap_append, filterMap_ofChar?_eq_nil hrun (by decide) (by decide)]
    exact ih
  | @name word _ _ _ hword _ _ ih =>
    have hname : (Token.ofName (String.ofList word)).paren? = none := by
      rw [Token.ofName]
      split_ifs <;> rfl
    rw [List.filterMap_append, filterMap_ofChar?_eq_nil hword (by decide) (by decide),
      List.filterMap_cons_none hname]
    exact ih
  | symbol ht _ ih => rw [List.filterMap_cons, List.filterMap_cons, paren?_of_ofSymbol? ht, ih]

theorem count_ofChar? (cs : List Char) :
    (cs.filterMap Paren.ofChar?).count .left = cs.count '(' ∧
      (cs.filterMap Paren.ofChar?).count .right = cs.count ')' := by
  have hleft (c : Char) : Paren.ofChar? c = some .left ↔ c = '(' := by
    rw [Paren.ofChar?]
    split_ifs <;> simp_all
  have hright (c : Char) : Paren.ofChar? c = some .right ↔ c = ')' := by
    rw [Paren.ofChar?]
    split_ifs <;> simp_all
  rw [List.count_filterMap, List.count_filterMap]
  exact ⟨List.countP_congr fun c _ => by simp [hleft],
    List.countP_congr fun c _ => by simp [hright]⟩

theorem count_paren? (ts : List Token) :
    (ts.filterMap Token.paren?).count .left = ts.count .leftParen ∧
      (ts.filterMap Token.paren?).count .right = ts.count .rightParen := by
  rw [List.count_filterMap, List.count_filterMap]
  exact ⟨List.countP_congr fun t _ => by cases t <;> simp [Token.paren?],
    List.countP_congr fun t _ => by cases t <;> simp [Token.paren?]⟩

theorem overclosed_filterMap_iff {α : Type} {f : α → Option Paren} {xs : List α} :
    Paren.Overclosed (xs.filterMap f) ↔ ∃ before, before <+: xs ∧
      (before.filterMap f).count .left < (before.filterMap f).count .right := by
  simp only [Paren.Overclosed, List.prefix_filterMap_iff]
  constructor
  · rintro ⟨_, ⟨before, hbefore, rfl⟩, hcount⟩
    exact ⟨before, hbefore, hcount⟩
  · rintro ⟨before, hbefore, hcount⟩
    exact ⟨_, ⟨before, hbefore, rfl⟩, hcount⟩

theorem overcloses_iff : Text.Overcloses cs ↔ Paren.Overclosed (cs.filterMap Paren.ofChar?) := by
  simp only [overclosed_filterMap_iff, count_ofChar?, Text.Overcloses]

/-- The two passes before the reordering leave the parentheses alone, so those of the tokens that
are reordered are those of the text. -/
theorem Scans.filterMap_infixTokens (h : Scans cs ts) :
    (infixTokens ts).filterMap Token.paren? = cs.filterMap Paren.ofChar? :=
  (Infix.filterMap_prepare rfl rfl rfl true ts).trans h.filterMap_paren?

theorem Scans.count_infixTokens (h : Scans cs ts) :
    (infixTokens ts).count .leftParen = cs.count '(' ∧
      (infixTokens ts).count .rightParen = cs.count ')' := by
  rw [← (count_ofChar? cs).1, ← (count_ofChar? cs).2, ← h.filterMap_infixTokens]
  exact ⟨(count_paren? _).1.symm, (count_paren? _).2.symm⟩

/-- A text closes too many parentheses where its tokens do. -/
theorem Scans.overcloses_iff (h : Scans cs ts) : Text.Overcloses cs ↔ ∃ before,
    before <+: infixTokens ts ∧ before.count .leftParen < before.count .rightParen := by
  simp only [Plotter.overcloses_iff, ← h.filterMap_infixTokens, overclosed_filterMap_iff,
    count_paren?]

/-! ## What the tokens of a source denote -/

theorem isKnown_of_isTypable (h : t.isTypable = true) : t.isKnown = true := by
  cases t with
  | function name => exact (Bool.and_eq_true_iff.1 h).1
  | operator _ => exact h
  | number _ | var _ | leftParen | rightParen => rfl

theorem mem_insertProducts (h : t ∈ Infix.insertProducts ts) : t ∈ ts ∨ t = Token.times := by
  induction ts with
  | nil => exact .inl h
  | cons s ts ih =>
    cases ts with
    | nil => exact .inl h
    | cons s' ts =>
      rw [Infix.insertProducts_cons_cons, List.mem_cons, List.mem_append] at h
      rcases h with rfl | hgap | hrest
      · exact .inl List.mem_cons_self
      · rw [Infix.gap] at hgap
        split at hgap
        · exact .inr (List.mem_singleton.1 hgap)
        · cases hgap
      · exact (ih hrest).imp (List.mem_cons_of_mem s) id

theorem mem_markFrom {initial : Bool} (h : t ∈ Infix.markFrom initial ts) :
    t ∈ ts ∨ t = Token.negation := by
  induction ts generalizing initial with
  | nil => exact .inl h
  | cons s ts ih =>
    rw [Infix.markFrom] at h
    split at h
    · rcases List.mem_cons.1 h with rfl | hrest
      · exact .inr rfl
      · exact (ih hrest).imp (List.mem_cons_of_mem s) id
    · rcases List.mem_cons.1 h with rfl | hrest
      · exact .inl List.mem_cons_self
      · exact (ih hrest).imp (List.mem_cons_of_mem s) id

/-- The signs that are put in and told apart denote something, too. -/
theorem isKnown_of_mem_infixTokens (h : ∀ t ∈ ts, t.isTypable = true) :
    ∀ t ∈ infixTokens ts, t.isKnown = true := by
  intro t ht
  rcases mem_markFrom ht with ht | rfl
  · rcases mem_insertProducts ht with ht | rfl
    · exact isKnown_of_isTypable (h t ht)
    · rfl
  · rfl

/-! ## Defects of a program -/

theorem arises_of_depthStep (hknown : t.isKnown = true) (hparen : t.isParen = false)
    (h : Program.depthStep depth t = .error d) : d.Arises := by
  cases t with
  | number _ | var _ => cases h
  | leftParen | rightParen => cases hparen
  | operator symbol =>
    simp only [Program.depthStep] at h
    split_ifs at h with hnone hdepth
    · simp_all [Token.isKnown]
    · cases h
      exact hknown
  | function name =>
    simp only [Program.depthStep] at h
    split_ifs at h with hnone hdepth
    · simp_all [Token.isKnown]
    · cases h
      exact hknown

/-- What the check finds in a program of tokens that denote something can only be that values are
missing or left over. -/
theorem arises_of_check (h : ∀ t ∈ program, t.isKnown = true ∧ t.isParen = false)
    (hcheck : Program.check program = .error d) : d.Arises := by
  rw [Program.check] at hcheck
  split at hcheck
  · rename_i d' hrun
    cases hcheck
    obtain ⟨i, depth, t, -, ht, hstep⟩ := exists_failsAt hrun
    obtain ⟨hknown, hparen⟩ := h t (List.mem_of_getElem? ht)
    exact arises_of_depthStep hknown hparen hstep
  · rename_i depth hrun
    split_ifs at hcheck with hempty hone
    · cases hcheck
      trivial
    · cases hcheck
      obtain ⟨forest, hlength, hlisting⟩ := Tree.exists_listing_of_foldlM_depthStep [] hrun
      have hne : forest ≠ [] := by
        rintro rfl
        exact hempty (by simpa using hlisting.symm)
      have hpos := List.length_pos_of_ne_nil hne
      show 2 ≤ depth
      omega

/-- The defects of a program that comes from typed tokens are among the listed ones. -/
theorem arises_of_programOf (htypable : ∀ t ∈ ts, t.isTypable = true)
    (horder : toPostfix (infixTokens ts) = .ok program)
    (hcheck : Program.check program = .error d) : d.Arises := by
  refine arises_of_check (fun t ht => ?_) hcheck
  have hmem := (perm_of_toPostfix horder).mem_iff.1 ht
  obtain ⟨hsource, hparen⟩ := List.mem_filter.1 hmem
  exact ⟨isKnown_of_mem_infixTokens htypable t hsource, by simpa using hparen⟩

/-! ## Sources that do not compile -/

/-- A source that falls into tokens closes a parenthesis that is not open, or leaves one open, or
its parentheses match; in this case it compiles unless values are missing or left over. -/
theorem compile_cases (hscan : Token.scan source = .ok ts) :
    (Text.Overcloses source.toList ∧
        Expression.compile source = .error (.order (.unmatched .right))) ∨
      (¬ Text.Overcloses source.toList ∧ ¬ Text.Balanced source.toList ∧
        Expression.compile source = .error (.order (.unmatched .left))) ∨
      (Text.Balanced source.toList ∧ ((∃ e, Expression.compile source = .ok e) ∨
        ∃ d, Expression.compile source = .error (.defective d) ∧ d.Arises)) := by
  have hscans := scan_eq_ok_iff.1 hscan
  have htypable := isTypable_of_scan hscan
  have hcompile : Expression.compile source = (Expression.programOf ts).map (⟨source, ·⟩) := by
    rw [Expression.compile, hscan]
  have horder {e : OrderError} (h : toPostfix (infixTokens ts) = .error e) :
      Expression.compile source = .error (.order e) := by
    rw [hcompile, Expression.programOf, h]
    rfl
  obtain ⟨hleft, hright⟩ := hscans.count_infixTokens
  cases hrun : (infixTokens ts).foldlM Yard.step {} with
  | error e =>
    obtain ⟨i, hi⟩ := Yard.exists_faultAt_of_run hrun
    cases hi with
    | unknown ht hsymbol =>
      have hknown := isKnown_of_mem_infixTokens htypable _ (List.mem_of_getElem? ht)
      simp [Token.isKnown, hsymbol] at hknown
    | overclosed _ hcount =>
      refine .inl ⟨hscans.overcloses_iff.2 ⟨_, List.take_prefix _ _, hcount⟩, ?_⟩
      exact horder (toPostfix_of_run_error hrun)
  | ok y =>
    have hfirst : ¬ Text.Overcloses source.toList := by
      rw [hscans.overcloses_iff]
      rintro ⟨before, hbefore, hcount⟩
      exact absurd hcount (Nat.not_lt.2 (Yard.count_le_of_run hrun hbefore))
    rcases toPostfix_of_run_ok hrun with ⟨hlt, herror⟩ | ⟨heq, program, hprogram⟩
    · refine .inr (.inl ⟨hfirst, ?_, horder herror⟩)
      intro hbalanced
      have hall := hbalanced.all_closed
      omega
    · refine .inr (.inr ⟨⟨hfirst, by omega⟩, ?_⟩)
      rw [hcompile, Expression.programOf, hprogram]
      cases hcheck : Program.check program with
      | ok u => exact .inl ⟨⟨source, program⟩, by simp [hcheck, Except.map]⟩
      | error d =>
        exact .inr ⟨d, by simp [hcheck, Except.map], arises_of_programOf htypable hprogram hcheck⟩

/-- A source that falls into tokens is told to have an unmatched parenthesis if and only if its
parentheses do not match; the parenthesis is a closing one if and only if some beginning of the
source closes more than it opens. If they match, the source compiles, or it is a syntax error that
values are missing or left over. -/
theorem compile_failures (hscan : Token.scan source = .ok ts) :
    ((∃ paren, Expression.compile source = .error (.order (.unmatched paren))) ↔
      ¬ Text.Balanced source.toList) ∧
    (∀ paren, Expression.compile source = .error (.order (.unmatched paren)) →
      (paren = .right ↔ Text.Overcloses source.toList) ∧
      (CompileError.order (.unmatched paren)).kind = "UnmatchedParenError") ∧
    (Text.Balanced source.toList → (∃ e, Expression.compile source = .ok e) ∨
      ∃ d, Expression.compile source = .error (.defective d) ∧ d.Arises ∧
        (CompileError.defective d).kind = "ExpressionSyntaxError" ∧
        (CompileError.defective d).message = d.reason) := by
  rcases compile_cases hscan with ⟨hover, herror⟩ | ⟨hfirst, hnot, herror⟩ | ⟨hbalanced, hrest⟩
  · refine ⟨?_, ?_, fun hbalanced => absurd hover hbalanced.opened_first⟩
    · exact ⟨fun _ hbalanced => hbalanced.opened_first hover, fun _ => ⟨_, herror⟩⟩
    · intro paren h
      obtain rfl : paren = .right := by simpa using h.symm.trans herror
      exact ⟨iff_of_true rfl hover, rfl⟩
  · refine ⟨iff_of_true ⟨_, herror⟩ hnot, ?_, fun hbalanced => absurd hbalanced hnot⟩
    intro paren h
    obtain rfl : paren = .left := by simpa using h.symm.trans herror
    exact ⟨iff_of_false (by simp) hfirst, rfl⟩
  · have hnone (paren : Paren) :
        Expression.compile source ≠ .error (.order (.unmatched paren)) := by
      rcases hrest with ⟨e, he⟩ | ⟨d, hd, -⟩
      · simp [he]
      · simp [hd]
    refine ⟨iff_of_false ?_ (not_not_intro hbalanced), ?_, fun _ => ?_⟩
    · rintro ⟨paren, h⟩
      exact hnone paren h
    · intro paren h
      exact absurd h (hnone paren)
    · exact hrest.imp id fun ⟨d, hd, harises⟩ => ⟨d, hd, harises, rfl, rfl⟩

/-- As many parentheses are closed as are opened, but in the wrong order. -/
theorem compile_closed_before_opened :
    Token.scan "2)x(" = .ok [.number 2, .rightParen, .var "x", .leftParen] ∧
    Expression.compile "2)x(" = .error (.order (.unmatched .right)) := by
  have hscan : Token.scan "2)x(" = .ok [.number 2, .rightParen, .var "x", .leftParen] := by
    decide +kernel
  have hover : Text.Overcloses "2)x(".toList := ⟨['2', ')'], ⟨['x', '('], by decide⟩, by decide⟩
  obtain ⟨hunmatched, hparen, -⟩ := compile_failures hscan
  obtain ⟨paren, herror⟩ := hunmatched.2 fun hbalanced => hbalanced.opened_first hover
  obtain rfl := (hparen paren herror).1.2 hover
  exact ⟨hscan, herror⟩

end Plotter
