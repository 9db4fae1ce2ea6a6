import Plotter.Proofs.CorrectRounding
import Plotter.Proofs.Records
import Plotter.Proofs.Run

/-!
# Loading records from outside

A record that conforms to the schema stands for tokens, unless the number of one of them is an
integer beyond the greatest double: the schema sets no bound on numbers. What becomes of a value from
outside follows from this, without a look at the decoder: it is turned down by the schema, for an
integer that is too large, or for a defect of its program, and it is accepted otherwise.
-/

namespace Plotter

/-- The record stands for the token. -/
inductive Json.Denotes : Json → Token → Prop where
  /-- An integer stands for the nearest double. -/
  | integer {j : Json} {i : Int} : j.IsPair "kind" (.string "number") "value" (.int i) →
      i.natAbs < Double.overflowBound → Denotes j (.number (Double.ofInt i))
  /-- Any other number stands for itself. -/
  | real {j : Json} {x : Float} : j.IsPair "kind" (.string "number") "value" (.real x) →
      Denotes j (.number x)
  | var {j : Json} {name : String} :
      j.IsPair "kind" (.string "variable") "name" (.string name) → Denotes j (.var name)
  | function {j : Json} {name : String} :
      j.IsPair "kind" (.string "function") "name" (.string name) → Denotes j (.function name)
  | operator {j : Json} {symbol : String} :
      j.IsPair "kind" (.string "operator") "symbol" (.string symbol) → Denotes j (.operator symbol)

namespace Json

/-- The record is that of a number, and the number is an integer beyond the greatest double. -/
def IsTooLarge (j : Json) : Prop :=
  ∃ i : Int, j.IsPair "kind" (.string "number") "value" (.int i) ∧
    Double.overflowBound ≤ i.natAbs

/-- The value is the record of an expression with the given text, and its records stand for the
given tokens. -/
def Decodes (j : Json) (source : String) (ts : List Token) : Prop :=
  ∃ records, j.IsExpression source records ∧ List.Forall₂ Denotes records ts

/-- One of the records of the program is that of an integer beyond the greatest double. -/
def HoldsTooLarge (j : Json) : Prop :=
  ∃ source records, j.IsExpression source records ∧ ∃ r ∈ records, r.IsTooLarge

end Json

variable {j v w : Json} {a b source source' : String} {records records' : List Json} {t : Token}
  {ts : List Token}

/-! ## Reading members -/

theorem Json.IsPair.member?_eq (h : j.IsPair a v b w) :
    j.member? a = some v ∧ j.member? b = some w := by
  obtain ⟨ms, rfl, hv, hw, -⟩ := h
  exact ⟨hv, hw⟩

theorem Json.IsPair.member_eq (h : j.IsPair a v b w) :
    Token.member j a = .ok v ∧ Token.member j b = .ok w := by
  simp [Token.member, h.member?_eq]

/-! ## Decoding one token -/

namespace Token

/-- The record of a token is decoded to it. -/
theorem ofJson_of_denotes (h : j.Denotes t) : ofJson j = .ok t := by
  cases h with
  | integer hpair hsmall =>
    have hfinite : ¬ (Double.ofInt _).isInf = true := fun hinf =>
      Nat.not_le.2 hsmall (Double.isInf_ofInt_iff.1 hinf)
    simp [ofJson, hpair.member_eq, numberOfJson, hfinite, bind, Except.bind, pure, Except.pure]
  | real hpair =>
    simp [ofJson, hpair.member_eq, numberOfJson, bind, Except.bind, pure, Except.pure]
  | var hpair =>
    simp [ofJson, textMember, hpair.member_eq, bind, Except.bind, pure, Except.pure]
  | function hpair =>
    simp [ofJson, textMember, hpair.member_eq, bind, Except.bind, pure, Except.pure]
  | operator hpair =>
    simp [ofJson, textMember, hpair.member_eq, bind, Except.bind, pure, Except.pure]

/-- The record of an integer that is too large is not decoded. -/
theorem ofJson_of_isTooLarge (h : j.IsTooLarge) : ofJson j = .error .tooLarge := by
  obtain ⟨i, hpair, hlarge⟩ := h
  simp [ofJson, hpair.member_eq, numberOfJson, Double.isInf_ofInt_iff.2 hlarge, bind, Except.bind]

end Token

/-- A record that fits a form stands for a token, but for those integers. -/
theorem TokenForm.Fits.denotes_or_isTooLarge {form : TokenForm} (h : form.Fits j) :
    (∃ t, j.Denotes t) ∨ j.IsTooLarge := by
  obtain ⟨v, hpair, hv⟩ := h
  cases form with
  | number =>
    rcases hv with ⟨i, rfl⟩ | ⟨x, rfl⟩
    · rcases Nat.lt_or_ge i.natAbs Double.overflowBound with hsmall | hlarge
      · exact .inl ⟨_, .integer hpair hsmall⟩
      · exact .inr ⟨i, hpair, hlarge⟩
    · exact .inl ⟨_, .real hpair⟩
  | var =>
    obtain ⟨name, rfl, -⟩ := hv
    exact .inl ⟨_, .var hpair⟩
  | function =>
    obtain ⟨name, rfl, -⟩ := hv
    exact .inl ⟨_, .function hpair⟩
  | operator =>
    obtain ⟨symbol, -, rfl⟩ := hv
    exact .inl ⟨_, .operator hpair⟩

/-! ## Decoding a program -/

namespace Token

theorem listOfJson_of_denotes (h : List.Forall₂ Json.Denotes records ts) :
    listOfJson records = .ok ts := by
  have hall : records.mapM ofJson = .ok ts :=
    mapM_eq_ok_iff.2 (h.imp fun _ _ => ofJson_of_denotes)
  rw [listOfJson, hall]

/-- One integer that is too large is enough, and no other error comes first. -/
theorem listOfJson_of_isTooLarge (hall : ∀ r ∈ records, (∃ t, r.Denotes t) ∨ r.IsTooLarge)
    (h : ∃ r ∈ records, r.IsTooLarge) : listOfJson records = .error .tooLarge := by
  obtain ⟨large, hmem, hlarge⟩ := h
  -- The error is that of the first record at fault, and all faults are the same.
  have hshape : ∀ r ∈ records, ∀ e, shapeError? r = some e → e = .tooLarge := by
    intro r hr e he
    rcases hall r hr with ⟨t, ht⟩ | hr
    · simp [shapeError?, ofJson_of_denotes ht] at he
    · simpa [shapeError?, ofJson_of_isTooLarge hr, eq_comm] using he
  have hfirst : records.findSome? shapeError? = some .tooLarge := by
    cases hfind : records.findSome? shapeError? with
    | none =>
      have hnone := List.findSome?_eq_none_iff.1 hfind large hmem
      simp [shapeError?, ofJson_of_isTooLarge hlarge] at hnone
    | some e =>
      obtain ⟨r, hr, he⟩ := List.exists_of_findSome?_eq_some hfind
      rw [hshape r hr e he]
  rw [listOfJson, hfirst]
  split
  · rename_i hok
    obtain ⟨t, -, ht⟩ := exists_of_mapM_eq_ok hok hmem
    rw [ofJson_of_isTooLarge hlarge] at ht
    cases ht
  · rfl

end Token

/-! ## Loading -/

namespace Json

/-- A value is the record of one text and one list of records only. -/
theorem IsExpression.unique (h : j.IsExpression source records)
    (h' : j.IsExpression source' records') : source = source' ∧ records = records' := by
  obtain ⟨ms, rfl, hsource, hprogram, -⟩ := h
  obtain ⟨ms', hms, hsource', hprogram', -⟩ := h'
  cases hms
  rw [hsource] at hsource'
  rw [hprogram] at hprogram'
  cases hsource'
  cases hprogram'
  exact ⟨rfl, rfl⟩

/-- Every record of a program that conforms to the schema stands for a token, if its number is not too
large. -/
theorem Conforms.denotes_or_isTooLarge (h : j.Conforms) (hj : j.IsExpression source records) :
    ∀ r ∈ records, (∃ t, r.Denotes t) ∨ r.IsTooLarge := by
  obtain ⟨source', records', hj', -, hforms⟩ := h
  obtain ⟨rfl, rfl⟩ := hj.unique hj'
  intro r hr
  obtain ⟨form, hform, -⟩ := hforms r hr
  exact hform.denotes_or_isTooLarge

/-- A value that conforms stands for tokens, or holds an integer that is too large. -/
theorem Conforms.holdsTooLarge_or_decodes (h : j.Conforms) :
    j.HoldsTooLarge ∨ ∃ source ts, j.Decodes source ts := by
  obtain ⟨source, records, hj, -⟩ := id h
  by_cases hlarge : ∃ r ∈ records, r.IsTooLarge
  · exact .inl ⟨source, records, hj, hlarge⟩
  · have hall : ∀ r ∈ records, ∃ t, r.Denotes t := fun r hr =>
      (h.denotes_or_isTooLarge hj r hr).resolve_right fun hr' => hlarge ⟨r, hr, hr'⟩
    have : Nonempty Token := ⟨.leftParen⟩
    choose! token htoken using hall
    have htokens : List.Forall₂ Denotes records (records.map token) :=
      List.forall₂_map_right_iff.2 (List.forall₂_same.2 htoken)
    exact .inr ⟨source, _, records, hj, htokens⟩

end Json

namespace Expression

theorem records_of_isExpression (h : j.IsExpression source records) :
    sourceOf j = source ∧ tokenRecords j = records := by
  simp [sourceOf, tokenRecords, h.member?_eq]

theorem load_of_not_conforms (h : ¬ j.Conforms) : load j = .error (.invalid (schema j)) := by
  rw [load]
  split
  · rename_i hschema
    exact absurd (schema_eq_nil_iff.1 hschema) h
  · rfl

theorem load_of_holdsTooLarge (h : j.Conforms) (hlarge : j.HoldsTooLarge) :
    load j = .error (.undecodable .tooLarge) := by
  obtain ⟨source, records, hj, hrecord⟩ := hlarge
  have hdecode : Token.listOfJson records = .error .tooLarge :=
    Token.listOfJson_of_isTooLarge (h.denotes_or_isTooLarge hj) hrecord
  rw [load, schema_eq_nil_iff.2 h, (records_of_isExpression hj).2, hdecode]

/-- A value that stands for tokens is loaded if their program has no defect. -/
theorem load_of_decodes (h : j.Conforms) (hdecodes : j.Decodes source ts) :
    load j =
      match Program.defect? ts with
      | some d => .error (.malformed d)
      | none => .ok ⟨source, ts⟩ := by
  obtain ⟨records, hj, htokens⟩ := hdecodes
  obtain ⟨hsource, hrecords⟩ := records_of_isExpression hj
  simp only [load, schema_eq_nil_iff.2 h, hrecords, hsource, Token.listOfJson_of_denotes htokens,
    Program.defect?]
  cases Program.check ts <;> rfl

end Expression

/-- What becomes of a value from outside. -/
inductive Json.Loads (j : Json) : Except LoadError Expression → Prop where
  /-- The schema turns down what does not conform to it. -/
  | invalid : ¬ j.Conforms → Loads j (.error (.invalid (Expression.schema j)))
  /-- An integer beyond the greatest double conforms to the schema, but stands for no token. -/
  | tooLarge : j.Conforms → j.HoldsTooLarge → Loads j (.error (.undecodable .tooLarge))
  /-- The value stands for a program that is not sound. -/
  | malformed {source : String} {ts : List Token} {d : Defect} : j.Conforms → j.Decodes source ts →
      Program.defect? ts = some d → Loads j (.error (.malformed d))
  /-- The value stands for a sound program. -/
  | accepted {source : String} {ts : List Token} : j.Conforms → j.Decodes source ts →
      Program.defect? ts = none → Loads j (.ok ⟨source, ts⟩)

namespace Expression

/-- Loading does with every value what is said of it. -/
theorem loads_load (j : Json) : j.Loads (load j) := by
  by_cases h : j.Conforms
  · rcases h.holdsTooLarge_or_decodes with hlarge | ⟨source, ts, hdecodes⟩
    · rw [load_of_holdsTooLarge h hlarge]
      exact .tooLarge h hlarge
    · rw [load_of_decodes h hdecodes]
      cases hdefect : Program.defect? ts with
      | some d => exact .malformed h hdecodes hdefect
      | none => exact .accepted h hdecodes hdefect
  · rw [load_of_not_conforms h]
    exact .invalid h

/-- It does nothing else, since no two of these cases come together. -/
theorem load_eq_iff {r : Except LoadError Expression} : load j = r ↔ j.Loads r := by
  constructor
  · rintro rfl
    exact loads_load j
  · intro h
    cases h with
    | invalid hj => exact load_of_not_conforms hj
    | tooLarge hj hlarge => exact load_of_holdsTooLarge hj hlarge
    | malformed hj hdecodes hdefect => rw [load_of_decodes hj hdecodes, hdefect]
    | accepted hj hdecodes hdefect => rw [load_of_decodes hj hdecodes, hdefect]

theorem load_eq_invalid_iff {violations : List Json.Violation} :
    load j = .error (.invalid violations) ↔ ¬ j.Conforms ∧ violations = schema j := by
  rw [load_eq_iff]
  constructor
  · rintro ⟨hj⟩
    exact ⟨hj, rfl⟩
  · rintro ⟨hj, rfl⟩
    exact .invalid hj

theorem load_eq_undecodable_iff {d : DecodeError} :
    load j = .error (.undecodable d) ↔ j.Conforms ∧ j.HoldsTooLarge ∧ d = .tooLarge := by
  rw [load_eq_iff]
  constructor
  · rintro ⟨⟩
    exact ⟨‹_›, ‹_›, rfl⟩
  · rintro ⟨hj, hlarge, rfl⟩
    exact .tooLarge hj hlarge

theorem load_eq_malformed_iff {d : Defect} :
    load j = .error (.malformed d) ↔
      j.Conforms ∧ ∃ source ts, j.Decodes source ts ∧ Program.defect? ts = some d := by
  rw [load_eq_iff]
  constructor
  · rintro ⟨⟩
    exact ⟨‹_›, _, _, ‹_›, ‹_›⟩
  · rintro ⟨hj, source, ts, hdecodes, hdefect⟩
    exact .malformed hj hdecodes hdefect

theorem load_eq_ok_iff {e : Expression} :
    load j = .ok e ↔
      j.Conforms ∧ j.Decodes e.source e.program ∧ Program.defect? e.program = none := by
  rw [load_eq_iff]
  constructor
  · rintro ⟨⟩
    exact ⟨‹_›, ‹_›, ‹_›⟩
  · rintro ⟨hj, hdecodes, hdefect⟩
    exact .accepted hj hdecodes hdefect

end Expression

open Expression

/-- The schema, and nothing else, turns down what does not conform to it. A value that conforms stands
for a program: it is turned down for a defect of that program, and accepted if there is none. But the
schema sets no bound on integers, and one beyond the greatest double stands for no token, which is
the one error of another kind. -/
theorem load_outcomes (j : Json) :
    (∀ violations, load j = .error (.invalid violations) ↔
        ¬ j.Conforms ∧ violations = schema j) ∧
      (∀ d, load j = .error (.malformed d) ↔
        j.Conforms ∧ ∃ source ts, j.Decodes source ts ∧ Program.defect? ts = some d) ∧
      (∀ e, load j = .ok e ↔
        j.Conforms ∧ j.Decodes e.source e.program ∧ Program.defect? e.program = none) ∧
      (∀ d, load j = .error (.undecodable d) ↔
        j.Conforms ∧ j.HoldsTooLarge ∧ d = .tooLarge) ∧
      (j.Conforms → ¬ j.HoldsTooLarge →
        ∃ source ts, j.Decodes source ts ∧
          load j =
            match Program.defect? ts with
            | some d => .error (.malformed d)
            | none => .ok ⟨source, ts⟩) := by
  refine ⟨fun _ => load_eq_invalid_iff, fun _ => load_eq_malformed_iff, fun _ => load_eq_ok_iff,
    fun _ => load_eq_undecodable_iff, fun h hsmall => ?_⟩
  obtain ⟨source, ts, hdecodes⟩ := h.holdsTooLarge_or_decodes.resolve_left hsmall
  exact ⟨source, ts, hdecodes, load_of_decodes h hdecodes⟩

/-- The record of a program that is a single variable. -/
def variableRecord : Json :=
  .object [("source", .string "x"), ("program", .array [
    .object [("kind", .string "variable"), ("name", .string "x")]])]

/-- A variable stands for itself, and it is a sound program. -/
theorem load_variableRecord :
    variableRecord.Conforms ∧ ¬ variableRecord.HoldsTooLarge ∧
      ∃ source ts, variableRecord.Decodes source ts ∧
        load variableRecord =
          match Program.defect? ts with
          | some d => .error (.malformed d)
          | none => .ok ⟨source, ts⟩ := by
  have hconforms : variableRecord.Conforms := schema_eq_nil_iff.1 rfl
  have hsmall : ¬ variableRecord.HoldsTooLarge := by
    rintro ⟨source, records, ⟨ms, hms, -, hrecords, -⟩, r, hr, i, ⟨ms', rfl, hkind, -⟩, -⟩
    cases hms
    cases hrecords
    cases List.mem_singleton.1 hr
    exact absurd (Json.string.inj (Option.some.inj hkind)) (by decide)
  exact ⟨hconforms, hsmall, (load_outcomes variableRecord).2.2.2.2 hconforms hsmall⟩

/-- The record of a program that adds a number of 310 digits to nothing. -/
def tooLargeRecord : Json :=
  .object [("source", .string "1e309 +"), ("program", .array [
    .object [("kind", .string "number"), ("value", .int (10 ^ 309))],
    .object [("kind", .string "operator"), ("symbol", .string "+")]])]

/-- Whatever its operand is, the program lacks one; yet no defect is reported, and no violation. -/
theorem load_tooLargeRecord :
    schema tooLargeRecord = [] ∧
      (∀ x, Program.defect? [.number x, .operator "+"] = some (.missingOperand "+")) ∧
      load tooLargeRecord = .error (.undecodable .tooLarge) := by
  have hschema : schema tooLargeRecord = [] := rfl
  refine ⟨hschema, fun _ => rfl, load_of_holdsTooLarge (schema_eq_nil_iff.1 hschema) ?_⟩
  refine ⟨_, _, ⟨_, rfl, rfl, rfl, by decide⟩, _, List.mem_cons_self, _,
    ⟨_, rfl, rfl, rfl, by decide⟩, ?_⟩
  decide +kernel

end Plotter
