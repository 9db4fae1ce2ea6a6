import Mathlib.Logic.ExistsUnique
import Plotter.Expression.Exchange

/-!
# What the schema of expressions admits

A schema lists violations. Beside each one stands here what a value without violations looks like,
said without the schema. A program has four forms of records for its tokens, no record has two of
them, and an expression is a record of a text and of at least one token.
-/

namespace Plotter

/-- The text consists of ASCII letters, of which there is at least one, and perhaps a line break
after them. -/
def Text.IsName (s : String) : Prop :=
  ∃ letters : List Char, letters ≠ [] ∧ (∀ c ∈ letters, c.isAlpha = true) ∧
    (s.toList = letters ∨ s.toList = letters ++ ['\n'])

/-- The value is a record of two members with the given names and values. -/
def Json.IsPair (j : Json) (a : String) (v : Json) (b : String) (w : Json) : Prop :=
  ∃ ms, j = .object ms ∧ ms.lookup a = some v ∧ ms.lookup b = some w ∧
    ∀ m ∈ ms, m.1 = a ∨ m.1 = b

/-- A form of the record of a token. -/
inductive TokenForm where
  | number
  | var
  | function
  | operator
deriving DecidableEq

namespace TokenForm

/-- The kind that a record of the form tells. -/
def kind : TokenForm → String
  | .number => "number"
  | .var => "variable"
  | .function => "function"
  | .operator => "operator"

/-- The name of the member beside the kind. -/
def field : TokenForm → String
  | .number => "value"
  | .var | .function => "name"
  | .operator => "symbol"

/-- Which values the member beside the kind may have. -/
def Admits : TokenForm → Json → Prop
  | .number, v => (∃ i, v = .int i) ∨ ∃ x, v = .real x
  | .var, v | .function, v => ∃ s, v = .string s ∧ Text.IsName s
  | .operator, v => ∃ symbol ∈ ["+", "-", "*", "/", "^"], v = .string symbol

/-- The value is a record of the form. -/
def Fits (form : TokenForm) (j : Json) : Prop :=
  ∃ v, j.IsPair "kind" (.string form.kind) form.field v ∧ form.Admits v

end TokenForm

/-- The value is the record of an expression with the given text and the given records of tokens. -/
def Json.IsExpression (j : Json) (source : String) (records : List Json) : Prop :=
  j.IsPair "source" (.string source) "program" (.array records)

/-- The value is the record of an expression, of at least one token, and each of its tokens has
exactly one form. -/
def Json.Conforms (j : Json) : Prop :=
  ∃ source records, j.IsExpression source records ∧ records ≠ [] ∧
    ∀ r ∈ records, ∃! form : TokenForm, form.Fits r

variable {j v w : Json} {a b s source : String} {records : List Json}

/-! ## Simple schemas -/

/-- A word of the schema is a name: letters, and perhaps a line break at the end. -/
theorem Text.isWord_iff : Json.Schema.isWord s = true ↔ Text.IsName s := by
  have hbreak : ¬ '\n'.isAlpha = true := by decide
  rw [Json.Schema.isWord, Bool.and_eq_true, List.all_eq_true, decide_eq_true_eq]
  constructor
  · rintro ⟨hne, halpha⟩
    refine ⟨_, hne, halpha, ?_⟩
    split
    · rename_i hlast
      obtain ⟨letters, hletters⟩ := List.getLast?_eq_some_iff.1 hlast
      rw [hletters, List.dropLast_concat]
      exact .inr rfl
    · exact .inl rfl
  · rintro ⟨letters, hne, halpha, heq | heq⟩
    · rw [heq, if_neg fun hlast => hbreak (halpha _ (List.mem_of_getLast? hlast))]
      exact ⟨hne, halpha⟩
    · rw [heq, if_pos List.getLast?_concat, List.dropLast_concat]
      exact ⟨hne, halpha⟩

namespace Json.Schema

theorem const_eq_nil_iff : const s j = [] ↔ j = .string s := by
  cases j with
  | string t => simp [const]
  | _ => simp [const]

/-- One of some texts is demanded. -/
theorem enum_eq_nil_iff {options : List String} :
    enum options j = [] ↔ ∃ s ∈ options, j = .string s := by
  cases j with
  | string t => simp [enum]
  | _ => simp [enum]

/-- Any number conforms, written as an integer or not. -/
theorem number_eq_nil_iff : number j = [] ↔ (∃ i, j = .int i) ∨ ∃ x, j = .real x := by
  cases j <;> simp [number]

theorem text_eq_nil_iff : text j = [] ↔ ∃ s, j = .string s := by
  cases j <;> simp [text]

theorem word_eq_nil_iff : word j = [] ↔ ∃ s, j = .string s ∧ Text.IsName s := by
  cases j with
  | string t => simp [word, Text.isWord_iff]
  | _ => simp [word]

/-! ## Schemas of records, arrays and alternatives -/

/-- A record conforms if it has the given members and no others, each of its schema. -/
theorem record_eq_nil_iff {parts : List (String × Schema)} :
    record parts j = [] ↔ ∃ ms, j = .object ms ∧ (∀ m ∈ ms, m.1 ∈ parts.map Prod.fst) ∧
      ∀ part ∈ parts, ∃ v, ms.lookup part.1 = some v ∧ part.2 v = [] := by
  cases j with
  | object ms =>
    have hmissing : (parts.filter fun part => (ms.lookup part.1).isNone) = [] ↔
        ∀ part ∈ parts, ∃ v, ms.lookup part.1 = some v := by
      simp [List.filter_eq_nil_iff, Option.isNone_iff_eq_none, ← Option.isSome_iff_exists,
        Option.isSome_iff_ne_none]
    have hsurplus : (if ms.all fun m => (parts.map Prod.fst).contains m.1 then []
        else [Violation.here .additionalProperties]) = [] ↔
        ∀ m ∈ ms, m.1 ∈ parts.map Prod.fst := by
      simp
    simp only [record, List.append_eq_nil_iff, List.map_eq_nil_iff, List.flatMap_eq_nil_iff,
      hmissing, hsurplus]
    constructor
    · rintro ⟨⟨hpresent, honly⟩, hparts⟩
      refine ⟨ms, rfl, honly, fun part hpart => ?_⟩
      obtain ⟨v, hv⟩ := hpresent part hpart
      exact ⟨v, hv, by simpa [hv] using hparts part hpart⟩
    · rintro ⟨ms', hms, honly, hparts⟩
      cases hms
      refine ⟨⟨fun part hpart => ?_, honly⟩, fun part hpart => ?_⟩
      · obtain ⟨v, hv, -⟩ := hparts part hpart
        exact ⟨v, hv⟩
      · obtain ⟨v, hv, hconforms⟩ := hparts part hpart
        simp [hv, hconforms]
  | _ => simp [record]

/-- A record with two members conforms if both values do. -/
theorem record_pair_eq_nil_iff {S T : Schema} :
    record [(a, S), (b, T)] j = [] ↔ ∃ v w, j.IsPair a v b w ∧ S v = [] ∧ T w = [] := by
  rw [record_eq_nil_iff]
  constructor
  · rintro ⟨ms, rfl, honly, hparts⟩
    obtain ⟨v, hv, hS⟩ := hparts (a, S) (by simp)
    obtain ⟨w, hw, hT⟩ := hparts (b, T) (by simp)
    exact ⟨v, w, ⟨ms, rfl, hv, hw, fun m hm => by simpa using honly m hm⟩, hS, hT⟩
  · rintro ⟨v, w, ⟨ms, rfl, hv, hw, honly⟩, hS, hT⟩
    refine ⟨ms, rfl, fun m hm => by simpa using honly m hm, ?_⟩
    simp [hv, hw, hS, hT]

/-- An array conforms if it has items and all of them conform. -/
theorem nonemptyArray_eq_nil_iff {items : Schema} :
    nonemptyArray items j = [] ↔ ∃ js, j = .array js ∧ js ≠ [] ∧ ∀ r ∈ js, items r = [] := by
  cases j with
  | array js =>
    have hitems : (∀ r index, (r, index) ∈ js.zipIdx → items r = []) ↔ ∀ r ∈ js, items r = [] := by
      constructor
      · intro h r hr
        obtain ⟨index, hindex⟩ := List.getElem?_of_mem hr
        exact h r index (List.mk_mem_zipIdx_iff_getElem?.2 hindex)
      · intro h r index hr
        exact h r (List.fst_mem_of_mem_zipIdx hr)
    simp [nonemptyArray, hitems]
  | _ => simp [nonemptyArray]

/-- A value conforms to alternatives if it conforms to one of them. -/
theorem oneOf_eq_nil_iff {alternatives : List Schema} :
    oneOf alternatives j = [] ↔ ∃ schema ∈ alternatives, schema j = [] := by
  have hany : ((alternatives.map (· j)).any List.isEmpty) = true ↔
      ∃ schema ∈ alternatives, schema j = [] := by simp
  rw [oneOf, ← hany]
  simp

end Json.Schema

/-! ## Tokens and expressions -/

theorem TokenForm.kind_injective : Function.Injective TokenForm.kind := by
  intro form form'
  cases form <;> cases form' <;> decide

/-- A record tells its form by its kind. -/
theorem TokenForm.Fits.unique {form form' : TokenForm} (h : form.Fits j) (h' : form'.Fits j) :
    form = form' := by
  obtain ⟨v, ⟨ms, rfl, hkind, -⟩, -⟩ := h
  obtain ⟨v', ⟨ms', hms, hkind', -⟩, -⟩ := h'
  cases hms
  rw [hkind] at hkind'
  exact kind_injective (Json.string.inj (Option.some.inj hkind'))

namespace TokenForm

/-- The schema of the member beside the kind. -/
def content : TokenForm → Json.Schema
  | .number => .number
  | .var | .function => .word
  | .operator => .enum ["+", "-", "*", "/", "^"]

/-- The schema of the records of a form. -/
def schema (form : TokenForm) : Json.Schema :=
  .record [("kind", .const form.kind), (form.field, form.content)]

/-- The schema of a content member accepts what the form admits. -/
theorem content_eq_nil_iff {form : TokenForm} : form.content v = [] ↔ form.Admits v := by
  cases form with
  | number => exact Json.Schema.number_eq_nil_iff
  | var | function => exact Json.Schema.word_eq_nil_iff
  | operator => exact Json.Schema.enum_eq_nil_iff

/-- The schema of a form accepts the records that fit it. -/
theorem schema_eq_nil_iff {form : TokenForm} : form.schema j = [] ↔ form.Fits j := by
  rw [schema, Json.Schema.record_pair_eq_nil_iff]
  constructor
  · rintro ⟨kind, v, hpair, hkind, hv⟩
    rw [Json.Schema.const_eq_nil_iff] at hkind
    exact ⟨v, hkind ▸ hpair, content_eq_nil_iff.1 hv⟩
  · rintro ⟨v, hpair, hv⟩
    exact ⟨_, v, hpair, Json.Schema.const_eq_nil_iff.2 rfl, content_eq_nil_iff.2 hv⟩

end TokenForm

namespace Expression

theorem tokenSchema_eq :
    tokenSchema = .oneOf
      ([TokenForm.number, TokenForm.var, TokenForm.function, TokenForm.operator].map
        TokenForm.schema) := rfl

/-- The alternatives of the schema of a token exclude one another. -/
theorem tokenSchema_eq_nil_iff : tokenSchema j = [] ↔ ∃! form : TokenForm, form.Fits j := by
  rw [tokenSchema_eq, Json.Schema.oneOf_eq_nil_iff]
  constructor
  · rintro ⟨schema, hschema, hj⟩
    obtain ⟨form, -, rfl⟩ := List.mem_map.1 hschema
    exact ⟨form, TokenForm.schema_eq_nil_iff.1 hj, fun form' h =>
      h.unique (TokenForm.schema_eq_nil_iff.1 hj)⟩
  · rintro ⟨form, h, -⟩
    refine ⟨form.schema, List.mem_map.2 ⟨form, ?_, rfl⟩, TokenForm.schema_eq_nil_iff.2 h⟩
    cases form <;> simp

/-- A value conforms to the schema of expressions if and only if it is a record of a text and of
tokens. -/
theorem schema_eq_nil_iff : schema j = [] ↔ j.Conforms := by
  rw [schema, Json.Schema.record_pair_eq_nil_iff]
  constructor
  · rintro ⟨v, w, hpair, hsource, hprogram⟩
    obtain ⟨source, rfl⟩ := Json.Schema.text_eq_nil_iff.1 hsource
    obtain ⟨records, rfl, hne, hrecords⟩ := Json.Schema.nonemptyArray_eq_nil_iff.1 hprogram
    exact ⟨source, records, hpair, hne, fun r hr => tokenSchema_eq_nil_iff.1 (hrecords r hr)⟩
  · rintro ⟨source, records, hpair, hne, hrecords⟩
    exact ⟨_, _, hpair, Json.Schema.text_eq_nil_iff.2 ⟨source, rfl⟩,
      Json.Schema.nonemptyArray_eq_nil_iff.2
        ⟨records, rfl, hne, fun r hr => tokenSchema_eq_nil_iff.2 (hrecords r hr)⟩⟩

end Expression

end Plotter
