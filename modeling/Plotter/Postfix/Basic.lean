import Plotter.Text.Quoted
import Plotter.Token.Basic

/-!
# From infix to postfix order

An operator waits on a stack until its right operand is complete. What is on the stack is a closed
type of its own: functions, operators that exist, and opening parentheses. An incoming operator
releases those that bind tighter than it does, a closing parenthesis releases all down to its
partner, and the function before that pair with them.
-/

namespace Plotter

/-- A parenthesis. -/
inductive Paren where
  | left
  | right
deriving DecidableEq, Repr

namespace Paren

/-- The character of a parenthesis. -/
def symbol : Paren → String
  | .left => "("
  | .right => ")"

end Paren

/-- The reason why a list of tokens cannot be brought into postfix order. -/
inductive OrderError where
  /-- The symbol is that of no operator. -/
  | unknownOperator (symbol : String)
  /-- The parenthesis has no partner. -/
  | unmatched (paren : Paren)
deriving DecidableEq, Repr

/-- The message for the user. -/
def OrderError.message : OrderError → String
  | .unknownOperator symbol => "Unknown operator " ++ Text.quoted symbol
  | .unmatched paren => "Unmatched " ++ Text.quoted paren.symbol

/-- An entry that waits for its right operand or for its partner. -/
inductive Pending where
  /-- An opening parenthesis. -/
  | opening
  /-- A function of one argument. -/
  | function (name : String)
  /-- A binary operator. -/
  | operator (op : BinaryOp)
deriving DecidableEq, Repr

namespace Pending

/-- The token that an entry stands for. -/
def token : Pending → Token
  | .opening => .leftParen
  | .function name => .function name
  | .operator op => .operator op.symbol

/-- Whether an incoming operator releases the entry. A function takes its argument at once, except
that a negation waits like an operator; a parenthesis holds everything below it. -/
def yields (incoming : BinaryOp) : Pending → Bool
  | .opening => false
  | .function name => name ≠ negationName || negationRank.outbinds incoming.rank
  | .operator op => op.rank.outbinds incoming.rank

/-- Whether the entry is a function that applies to a parenthesised argument as soon as it is
closed. A negation does not: `-(2) ^ 2` is the negative of a square. -/
def takesGroup : Pending → Bool
  | .function name => name ≠ negationName
  | _ => false

end Pending

/-- The state of the reordering. -/
structure Yard where
  /-- The tokens in postfix order so far. -/
  output : Array Token := #[]
  /-- The entries that wait, the latest first. -/
  stack : List Pending := []

namespace Yard

/-- Moves entries to the output, leaving the given stack. -/
def release (y : Yard) (entries stack : List Pending) : Yard :=
  ⟨y.output ++ entries.map Pending.token, stack⟩

/-- Releases what yields to an operator, which then waits itself. -/
def pushOperator (y : Yard) (op : BinaryOp) : Yard :=
  y.release (y.stack.takeWhile (Pending.yields op))
    (.operator op :: y.stack.dropWhile (Pending.yields op))

/-- Releases what waits above the nearest opening parenthesis, which is taken off the stack, and
then the function before it, if there is one. -/
def close (y : Yard) : Except OrderError Yard :=
  match y.stack.dropWhile (· ≠ .opening) with
  | [] => .error (.unmatched .right)
  | _ :: below =>
    let group := y.stack.takeWhile (· ≠ .opening)
    match below with
    | top :: rest =>
      if top.takesGroup then .ok (y.release (group ++ [top]) rest) else .ok (y.release group below)
    | [] => .ok (y.release group [])

/-- Takes in the next token. -/
def step (y : Yard) : Token → Except OrderError Yard
  | .number value => .ok { y with output := y.output.push (.number value) }
  | .var name => .ok { y with output := y.output.push (.var name) }
  | .function name => .ok { y with stack := .function name :: y.stack }
  | .operator symbol =>
    match BinaryOp.ofSymbol? symbol with
    | some op => .ok (y.pushOperator op)
    | none => .error (.unknownOperator symbol)
  | .leftParen => .ok { y with stack := .opening :: y.stack }
  | .rightParen => y.close

/-- Releases all that waits; an opening parenthesis among it has no partner. -/
def finish (y : Yard) : Except OrderError (List Token) :=
  if y.stack.contains .opening then .error (.unmatched .left)
  else .ok (y.release y.stack []).output.toList

end Yard

/-- The tokens in postfix order: operands in their order, every operator and function after its
operands, and no parentheses. -/
def toPostfix (ts : List Token) : Except OrderError (List Token) :=
  match ts.foldlM Yard.step {} with
  | .error e => .error e
  | .ok y => y.finish

end Plotter
