import Plotter.Double.Shortest
import Plotter.Json.Basic
import Plotter.Text.Quoted

/-!
# Showing JSON values in messages

A message that names an unexpected value shows it on one line, with texts quoted, or names its type.
-/

namespace Plotter.Json

/-- The name of the type of a value in messages. -/
def typeName : Json → String
  | .null => "NoneType"
  | .bool _ => "bool"
  | .int _ => "int"
  | .real _ => "float"
  | .string _ => "str"
  | .array _ => "list"
  | .object _ => "dict"

mutual

/-- The value as a message shows it. -/
def display : Json → String
  | .null => "None"
  | .bool b => if b then "True" else "False"
  | .int i => toString i
  | .real x => Double.text x
  | .string s => Text.quoted s
  | .array items => "[" ++ ", ".intercalate (displayItems items) ++ "]"
  | .object members => "\x7b" ++ ", ".intercalate (displayMembers members) ++ "\x7d"

/-- Each item of an array as a message shows it. -/
def displayItems : List Json → List String
  | [] => []
  | j :: rest => j.display :: displayItems rest

/-- Each member of an object as a message shows it. -/
def displayMembers : List (String × Json) → List String
  | [] => []
  | (name, j) :: rest => (Text.quoted name ++ ": " ++ j.display) :: displayMembers rest

end

end Plotter.Json
