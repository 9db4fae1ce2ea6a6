import Plotter.Elementary.Total

/-!
# The operations of a formula

Five binary operators with their precedence and associativity, and six functions of one argument.
One of the functions, negation, has no name that a user can type: it stands for the minus sign
before an operand.
-/

namespace Plotter

/-- The side from which operators of equal precedence group. -/
inductive Associativity where
  /-- Operators group from the left. -/
  | left
  /-- Operators group from the right. -/
  | right
deriving DecidableEq, Repr

/-- How tightly an operator binds. -/
structure Rank where
  /-- The precedence; the greater one binds tighter. -/
  precedence : Nat
  /-- How operators of this precedence group. -/
  associativity : Associativity
deriving DecidableEq, Repr

/-- Whether an operator of rank `a` that stands to the left of one of rank `b` takes the operand
between them. -/
def Rank.outbinds (a b : Rank) : Bool :=
  b.precedence < a.precedence || (a.precedence = b.precedence && b.associativity = .left)

/-- A binary operator. -/
inductive BinaryOp where
  | add
  | sub
  | mul
  | div
  | pow
deriving DecidableEq, Repr

namespace BinaryOp

/-- The symbol of an operator. -/
def symbol : BinaryOp → String
  | .add => "+"
  | .sub => "-"
  | .mul => "*"
  | .div => "/"
  | .pow => "^"

/-- The operator of a symbol. -/
def ofSymbol? : String → Option BinaryOp
  | "+" => some .add
  | "-" => some .sub
  | "*" => some .mul
  | "/" => some .div
  | "^" => some .pow
  | _ => none

/-- Exponentiation binds tightest and groups from the right; the others group from the left. -/
def rank : BinaryOp → Rank
  | .add | .sub => ⟨1, .left⟩
  | .mul | .div => ⟨2, .left⟩
  | .pow => ⟨3, .right⟩

/-- The value of an operator, defined on all doubles. -/
def apply : BinaryOp → Float → Float → Float
  | .add => (· + ·)
  | .sub => (· - ·)
  | .mul => (· * ·)
  | .div => Total.divide
  | .pow => Total.power

@[simp]
theorem ofSymbol?_symbol (op : BinaryOp) : ofSymbol? op.symbol = some op := by
  cases op <;> rfl

theorem symbol_of_ofSymbol? {s : String} {op : BinaryOp} (h : ofSymbol? s = some op) :
    op.symbol = s := by
  unfold ofSymbol? at h
  split at h <;> cases h <;> rfl

end BinaryOp

/-- A function of one argument. -/
inductive UnaryFn where
  | sin
  | cos
  | tan
  | log
  | sqrt
  | neg
deriving DecidableEq, Repr

/-- The name of negation, which is set aside for the minus sign before an operand. -/
def negationName : String := "neg"

namespace UnaryFn

/-- The name of a function. -/
def name : UnaryFn → String
  | .sin => "sin"
  | .cos => "cos"
  | .tan => "tan"
  | .log => "log"
  | .sqrt => "sqrt"
  | .neg => negationName

/-- The function of a name. -/
def ofName? : String → Option UnaryFn
  | "sin" => some .sin
  | "cos" => some .cos
  | "tan" => some .tan
  | "log" => some .log
  | "sqrt" => some .sqrt
  | "neg" => some .neg
  | _ => none

/-- The value of a function, defined on all doubles. -/
def apply : UnaryFn → Float → Float
  | .sin => Total.ofChecked Checked.sin
  | .cos => Total.ofChecked Checked.cos
  | .tan => Total.ofChecked Checked.tan
  | .log => Total.log
  | .sqrt => Total.ofChecked Checked.sqrt
  | .neg => fun x => -x

@[simp]
theorem ofName?_name (f : UnaryFn) : ofName? f.name = some f := by
  cases f <;> rfl

theorem name_of_ofName? {s : String} {f : UnaryFn} (h : ofName? s = some f) : f.name = s := by
  unfold ofName? at h
  split at h <;> cases h <;> rfl

end UnaryFn

/-- Whether a name is that of a function that a user can type. -/
def isUserFunction (name : String) : Bool :=
  (UnaryFn.ofName? name).isSome && name ≠ negationName

/-- Negation binds as tightly as exponentiation and groups from the right, so `-3 ^ 2` is the
negative of a square and `2 ^ -3` a power with a negative exponent. -/
def negationRank : Rank := ⟨3, .right⟩

end Plotter
