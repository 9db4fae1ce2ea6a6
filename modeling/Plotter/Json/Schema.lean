import Plotter.Json.Basic

/-!
# Schemas

A schema is a check that lists what a JSON value violates, in a fixed order. Schemas of records,
arrays and alternatives are put together from those of their parts. A violation tells where it is
and which rule it breaks; a value that fits no alternative carries the complaints of each.
-/

namespace Plotter.Json

/-- A rule that a value can break. -/
inductive Rule where
  /-- The value is of another type. -/
  | type
  /-- A member is missing. -/
  | required
  /-- There are members beyond those allowed. -/
  | additionalProperties
  /-- The array has too few items. -/
  | minItems
  /-- The value fits none of the alternatives. -/
  | oneOf
  /-- The value is not the one demanded. -/
  | const
  /-- The text is not of the demanded form. -/
  | pattern
  /-- The value is not among those allowed. -/
  | enum
deriving DecidableEq, Repr

/-- The name of a rule. -/
def Rule.name : Rule → String
  | .type => "type"
  | .required => "required"
  | .additionalProperties => "additionalProperties"
  | .minItems => "minItems"
  | .oneOf => "oneOf"
  | .const => "const"
  | .pattern => "pattern"
  | .enum => "enum"

/-- A step from a value to one of its parts. -/
inductive PathStep where
  /-- To the member of a name. -/
  | member (name : String)
  /-- To the item of an index. -/
  | item (index : Nat)
deriving DecidableEq, Repr

/-- The text of a step. -/
def PathStep.text : PathStep → String
  | .member name => name
  | .item index => toString index

/-- A rule that is broken at a place. -/
structure Complaint where
  /-- The way from the checked value to the place. -/
  path : List PathStep
  /-- The rule. -/
  rule : Rule
deriving DecidableEq, Repr

/-- A complaint about a value. -/
structure Violation extends Complaint where
  /-- For a value that fits no alternative, the complaints of each, with its index. -/
  branches : List (Nat × Complaint) := []
deriving DecidableEq, Repr

/-- The violation of a rule by the checked value itself. -/
def Violation.here (rule : Rule) : Violation := { path := [], rule }

/-- The violation as seen from a value that has the checked one as a part. -/
def Violation.under (step : PathStep) (v : Violation) : Violation :=
  { v with path := step :: v.path }

/-- A schema, as the list of violations of a value; a value conforms if the list is empty. -/
abbrev Schema := Json → List Violation

namespace Schema

/-- The text `expected` and nothing else. -/
def const (expected : String) : Schema
  | .string s => if s = expected then [] else [.here .const]
  | _ => [.here .const]

/-- One of some texts. -/
def enum (options : List String) : Schema
  | .string s => if s ∈ options then [] else [.here .enum]
  | _ => [.here .enum]

/-- Any number; a truth value is none. -/
def number : Schema
  | .int _ | .real _ => []
  | _ => [.here .type]

/-- Any text. -/
def text : Schema
  | .string _ => []
  | _ => [.here .type]

/-- Whether a text consists of ASCII letters and has at least one, disregarding a line break at
its end. -/
def isWord (s : String) : Bool :=
  let cs := s.toList
  let line := if cs.getLast? = some '\n' then cs.dropLast else cs
  line ≠ [] && line.all Char.isAlpha

/-- A word of ASCII letters. -/
def word : Schema
  | .string s => if isWord s then [] else [.here .pattern]
  | _ => [.here .type]

/-- A record with exactly the given members. First each missing member counts, then all surplus ones
together, then what the members violate. -/
def record (parts : List (String × Schema)) : Schema
  | .object ms =>
    (parts.filter fun part => (ms.lookup part.1).isNone).map (fun _ => .here .required) ++
    (if ms.all fun m => (parts.map Prod.fst).contains m.1 then []
      else [.here .additionalProperties]) ++
    parts.flatMap fun part =>
      match ms.lookup part.1 with
      | some value => (part.2 value).map (.under (.member part.1))
      | none => []
  | _ => [.here .type]

/-- An array with at least one item, all of the given schema. -/
def nonemptyArray (items : Schema) : Schema
  | .array js =>
    (if js.isEmpty then [.here .minItems] else []) ++
    js.zipIdx.flatMap fun (j, index) => (items j).map (.under (.item index))
  | _ => [.here .type]

/-- A value that fits one of several alternatives, of which no two have a value in common. -/
def oneOf (alternatives : List Schema) : Schema := fun j =>
  let results := alternatives.map (· j)
  if results.any List.isEmpty then []
  else
    [{ Violation.here .oneOf with
        branches := results.zipIdx.flatMap fun (violations, index) =>
          violations.map fun v => (index, v.toComplaint) }]

end Schema

end Plotter.Json
