import Plotter.Postfix.Basic

/-!
# Checking a program without running it

A program in postfix order is sound if every operator and function finds its operands on the stack
and exactly one value is left. The check follows the number of values on the stack.
-/

namespace Plotter

/-- What is wrong with the structure of a program. -/
inductive Defect where
  /-- The symbol is that of no operator. -/
  | unknownOperator (symbol : String)
  /-- Fewer than two values are there for the operator. -/
  | missingOperand (symbol : String)
  /-- The name is that of no function. -/
  | unknownFunction (name : String)
  /-- No value is there for the function. -/
  | missingArgument (name : String)
  /-- A parenthesis has no place in postfix order. -/
  | parenthesis (paren : Paren)
  /-- There is no token at all. -/
  | empty
  /-- The number of values at the end is not one. -/
  | leaves (count : Nat)
deriving DecidableEq, Repr

/-- What the author of a formula is told. -/
def Defect.reason : Defect → String
  | .unknownOperator symbol => "unknown operator " ++ Text.quoted symbol
  | .missingOperand symbol => "operator " ++ Text.quoted symbol ++ " is missing an operand"
  | .unknownFunction name => "unknown function " ++ Text.quoted name
  | .missingArgument name => "function " ++ Text.quoted name ++ " is missing an argument"
  | .parenthesis paren => "unexpected token " ++ paren.symbol ++ " in postfix program"
  | .empty => "empty expression"
  | .leaves count => "expression leaves " ++ toString count ++ " values (missing operator?)"

namespace Program

/-- The number of values after a token, given the number before it. -/
def depthStep (depth : Nat) : Token → Except Defect Nat
  | .number _ => .ok (depth + 1)
  | .var _ => .ok (depth + 1)
  | .operator symbol =>
    if (BinaryOp.ofSymbol? symbol).isNone then .error (.unknownOperator symbol)
    else if depth < 2 then .error (.missingOperand symbol)
    else .ok (depth - 1)
  | .function name =>
    if (UnaryFn.ofName? name).isNone then .error (.unknownFunction name)
    else if depth < 1 then .error (.missingArgument name)
    else .ok depth
  | .leftParen => .error (.parenthesis .left)
  | .rightParen => .error (.parenthesis .right)

/-- Accepts a program that leaves exactly one value. -/
def check (program : List Token) : Except Defect Unit :=
  match program.foldlM depthStep 0 with
  | .error d => .error d
  | .ok depth =>
    if program = [] then .error .empty
    else if depth = 1 then .ok ()
    else .error (.leaves depth)

/-- The defect of a program, if it has one. -/
def defect? (program : List Token) : Option Defect :=
  match check program with
  | .ok () => none
  | .error d => some d

end Program

end Plotter
