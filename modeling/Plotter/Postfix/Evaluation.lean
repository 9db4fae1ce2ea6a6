import Plotter.Postfix.Balance

/-!
# Running a program

A program is run on a stack of values, the latest first. Infinities and values that are no numbers
are ordinary results; the only faults are a variable without a value and a program that is not
sound.
-/

namespace Plotter

/-- The values of variables. -/
abbrev Bindings := String → Option Float

/-- The bindings that give a value to one variable only. -/
def Bindings.only (name : String) (value : Float) : Bindings :=
  fun n => if n = name then some value else none

/-- The reason why a program has no value. -/
inductive EvalError where
  /-- The variable has no value. -/
  | unbound (name : String)
  /-- The program is not sound. -/
  | malformed (defect : Defect)
deriving DecidableEq, Repr

/-- What is said of a program that turns out not to be sound while it runs. -/
def Defect.runReason : Defect → String
  | .missingOperand symbol => "operator " ++ Text.quoted symbol ++ " needs two operands"
  | .missingArgument name => "function " ++ Text.quoted name ++ " needs an argument"
  | .leaves count => "program leaves " ++ toString count ++ " values on the stack"
  | d => d.reason

/-- The message for a program whose structure is at fault. -/
def malformedMessage (reason : String) : String := "Malformed program: " ++ reason

/-- The message for the user. -/
def EvalError.message : EvalError → String
  | .unbound name => "Unbound variable: " ++ Text.quoted name
  | .malformed d => malformedMessage d.runReason

namespace Program

/-- The stack after a token. The latest value is the right operand of an operator. -/
def evalStep (bindings : Bindings) (stack : List Float) : Token → Except EvalError (List Float)
  | .number value => .ok (value :: stack)
  | .var name =>
    match bindings name with
    | some value => .ok (value :: stack)
    | none => .error (.unbound name)
  | .operator symbol =>
    match stack with
    | right :: left :: rest =>
      match BinaryOp.ofSymbol? symbol with
      | some op => .ok (op.apply left right :: rest)
      | none => .error (.malformed (.unknownOperator symbol))
    | _ => .error (.malformed (.missingOperand symbol))
  | .function name =>
    match stack with
    | argument :: rest =>
      match UnaryFn.ofName? name with
      | some f => .ok (f.apply argument :: rest)
      | none => .error (.malformed (.unknownFunction name))
    | [] => .error (.malformed (.missingArgument name))
  | .leftParen => .error (.malformed (.parenthesis .left))
  | .rightParen => .error (.malformed (.parenthesis .right))

/-- The value of a program. -/
def eval (bindings : Bindings) (program : List Token) : Except EvalError Float :=
  match program.foldlM (evalStep bindings) [] with
  | .error e => .error e
  | .ok [value] => .ok value
  | .ok stack => .error (.malformed (.leaves stack.length))

end Program

end Plotter
