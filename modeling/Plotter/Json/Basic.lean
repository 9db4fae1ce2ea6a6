/-!
# JSON values

The values in which compiled formulas are exchanged. Whole numbers are kept apart from decimal
fractions, because they may be of any size, and the members of an object keep their order.
-/

namespace Plotter

/-- A JSON value. -/
inductive Json where
  /-- The null value. -/
  | null
  /-- A truth value. -/
  | bool (b : Bool)
  /-- A number written without point and power of ten. -/
  | int (i : Int)
  /-- Any other number. -/
  | real (x : Float)
  /-- A text. -/
  | string (s : String)
  /-- A list of values. -/
  | array (items : List Json)
  /-- A list of members. The names differ in all that is read or written; of several members of one
  name a look-up would find the first. -/
  | object (members : List (String × Json))

namespace Json

/-- The members of an object; other values have none. -/
def members : Json → List (String × Json)
  | .object ms => ms
  | _ => []

/-- The member of the given name. -/
def member? (j : Json) (name : String) : Option Json := j.members.lookup name

/-- Adds a member. A member of the same name keeps its place and gets the new value. -/
def setMember (ms : List (String × Json)) (name : String) (value : Json) : List (String × Json) :=
  match ms with
  | [] => [(name, value)]
  | (n, v) :: rest =>
    if n = name then (n, value) :: rest else (n, v) :: setMember rest name value

end Json

end Plotter
