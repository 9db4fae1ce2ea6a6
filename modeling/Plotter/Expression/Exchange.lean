import Plotter.Expression.Basic
import Plotter.Json.Display
import Plotter.Json.Schema
import Plotter.Text.Number

/-!
# Exchange of expressions

An expression is exported as a JSON record of its source and its program, and read back from one. A
record from outside is first checked against a schema, then decoded, and its program is checked
before anything runs it.
-/

namespace Plotter

/-- The reason why a JSON value is not a token. -/
inductive DecodeError where
  /-- A member is missing. -/
  | missing (name : String)
  /-- The kind is none of those of tokens. -/
  | unknownKind (kind : Json)
  /-- The text is not a number. -/
  | badNumber (text : String)
  /-- The value is neither a number nor a text. -/
  | notNumeric (value : Json)
  /-- The whole number is greater than every double. -/
  | tooLarge
  /-- The name or symbol of a token is not a text, so the token cannot be shown. -/
  | notText (value : Json)

/-- The message for the user. -/
def DecodeError.message : DecodeError → String
  | .missing name => Text.quoted name
  | .unknownKind kind => "Unknown token kind: " ++ kind.display
  | .badNumber text => "could not convert string to float: " ++ Text.quoted text
  | .notNumeric value =>
    "float() argument must be a string or a real number, not " ++ Text.quoted value.typeName
  | .tooLarge => "int too large to convert to float"
  | .notText value => "__str__ returned non-string (type " ++ value.typeName ++ ")"

namespace Token

/-- The JSON record of a token. -/
def toJson : Token → Json
  | .number value => .object [("kind", .string "number"), ("value", .real value)]
  | .var name => .object [("kind", .string "variable"), ("name", .string name)]
  | .function name => .object [("kind", .string "function"), ("name", .string name)]
  | .operator symbol => .object [("kind", .string "operator"), ("symbol", .string symbol)]
  | .leftParen => .object [("kind", .string "lparen")]
  | .rightParen => .object [("kind", .string "rparen")]

/-- The member of a record. -/
def member (j : Json) (name : String) : Except DecodeError Json :=
  match j.member? name with
  | some value => .ok value
  | none => .error (.missing name)

/-- The member of a record that is to be a text. -/
def textMember (j : Json) (name : String) : Except DecodeError String := do
  match ← member j name with
  | .string s => return s
  | value => throw (.notText value)

/-- The double that a JSON value stands for: a number or a truth value, or a text that is a number.
A whole number is rounded to the nearest double, if it is not beyond the greatest one. -/
def numberOfJson : Json → Except DecodeError Float
  | .int i =>
    let x := Double.ofInt i
    if x.isInf then .error .tooLarge else .ok x
  | .real x => .ok x
  | .bool b => .ok (if b then 1 else 0)
  | .string s =>
    match Text.number? s with
    | some x => .ok x
    | none => .error (.badNumber s)
  | value => .error (.notNumeric value)

/-- The token of a JSON record. Members that its kind does not have are disregarded. -/
def ofJson (j : Json) : Except DecodeError Token := do
  match ← member j "kind" with
  | .string "number" => return .number (← numberOfJson (← member j "value"))
  | .string "variable" => return .var (← textMember j "name")
  | .string "function" => return .function (← textMember j "name")
  | .string "operator" => return .operator (← textMember j "symbol")
  | .string "lparen" => return .leftParen
  | .string "rparen" => return .rightParen
  | kind => throw (.unknownKind kind)

/-- Why a JSON record is not a token, except for a name or symbol that is not a text. -/
def shapeError? (j : Json) : Option DecodeError :=
  match ofJson j with
  | .ok _ | .error (.notText _) => none
  | .error e => some e

/-- The tokens of several JSON records. The first that is not one decides the error; a name or
symbol that is not a text comes to light last. -/
def listOfJson (js : List Json) : Except DecodeError (List Token) :=
  match js.mapM ofJson with
  | .ok ts => .ok ts
  | .error e => .error ((js.findSome? shapeError?).getD e)

end Token

/-- The reason why a JSON value is not accepted as an expression. -/
inductive LoadError where
  /-- It does not conform to the schema. -/
  | invalid (violations : List Json.Violation)
  /-- A token cannot be decoded. -/
  | undecodable (error : DecodeError)
  /-- The program is not sound. -/
  | malformed (defect : Defect)

namespace Expression

/-- The schema of a token of a program. Parentheses have no place in one. -/
def tokenSchema : Json.Schema :=
  .oneOf [
    .record [("kind", .const "number"), ("value", .number)],
    .record [("kind", .const "variable"), ("name", .word)],
    .record [("kind", .const "function"), ("name", .word)],
    .record [("kind", .const "operator"), ("symbol", .enum ["+", "-", "*", "/", "^"])]]

/-- The title of the schema of an expression. -/
def schemaTitle : String := "CompiledExpression"

/-- The name under which the schema of an expression is known. -/
def schemaName : String := "compiled_expression"

/-- The schema of an expression. -/
def schema : Json.Schema :=
  .record [("source", .text), ("program", .nonemptyArray tokenSchema)]

/-- The title of the schema of a name; there is only one. -/
def schemaTitle? (name : String) : Option String :=
  if name = schemaName then some schemaTitle else none

/-- Whether a JSON value conforms to the schema. -/
def conforms (j : Json) : Bool := (schema j).isEmpty

/-- The JSON record of an expression. -/
def toJson (e : Expression) : Json :=
  .object [("source", .string e.source), ("program", .array (e.program.map Token.toJson))]

/-- The source in a record that conforms to the schema. -/
def sourceOf (j : Json) : String :=
  match j.member? "source" with
  | some (.string s) => s
  | _ => ""

/-- The records of the tokens in a record that conforms to the schema. -/
def tokenRecords (j : Json) : List Json :=
  match j.member? "program" with
  | some (.array js) => js
  | _ => []

/-- Reads an expression from a JSON value: the value must conform to the schema, its numbers must be
in the range of the doubles, and its program must be sound. -/
def load (j : Json) : Except LoadError Expression :=
  match schema j with
  | [] =>
    match Token.listOfJson (tokenRecords j) with
    | .error e => .error (.undecodable e)
    | .ok program =>
      match Program.check program with
      | .error d => .error (.malformed d)
      | .ok () => .ok ⟨sourceOf j, program⟩
  | violations => .error (.invalid violations)

end Expression

end Plotter
