import Plotter.Infix.Juxtaposition
import Plotter.Infix.Negation
import Plotter.Postfix.Evaluation
import Plotter.Token.Lexer

/-!
# Expressions

An expression is a formula as the user typed it, together with its program in postfix order. It is
compiled in full or not at all: the source is scanned, the signs that the user left out are put in,
minus signs are told apart, the tokens are reordered, and the program is checked.
-/

namespace Plotter

/-- A compiled formula. -/
structure Expression where
  /-- The text of the formula. -/
  source : String
  /-- Its program in postfix order. -/
  program : List Token
deriving DecidableEq

/-- The reason why a source does not compile. -/
inductive CompileError where
  /-- The source is not a sequence of tokens. -/
  | lexical (error : LexError)
  /-- The tokens have no postfix order. -/
  | order (error : OrderError)
  /-- The program in postfix order is not sound. -/
  | defective (defect : Defect)
  /-- The source has more characters than is allowed. -/
  | tooLong (limit : Int)
deriving DecidableEq, Repr

namespace CompileError

/-- The message for the user. -/
def message : CompileError → String
  | .lexical e => e.message
  | .order e => e.message
  | .defective d => d.reason
  | .tooLong limit => "expression exceeds " ++ toString limit ++ " characters"

/-- The name of the kind of error. -/
def kind : CompileError → String
  | .lexical _ => "LexError"
  | .order (.unmatched _) => "UnmatchedParenError"
  | .order (.unknownOperator _) | .defective _ | .tooLong _ => "ExpressionSyntaxError"

end CompileError

namespace Expression

/-- The tokens of a source as the user means them, in infix order. -/
def infixTokens (ts : List Token) : List Token := Infix.markNegations (Infix.insertProducts ts)

/-- The program of a list of tokens, if it is sound. -/
def programOf (ts : List Token) : Except CompileError (List Token) :=
  match toPostfix (infixTokens ts) with
  | .error e => .error (.order e)
  | .ok program =>
    match Program.check program with
    | .error d => .error (.defective d)
    | .ok () => .ok program

/-- Compiles a source text. -/
def compile (source : String) : Except CompileError Expression :=
  match Token.scan source with
  | .error e => .error (.lexical e)
  | .ok ts => (programOf ts).map (⟨source, ·⟩)

theorem programOf_eq_ok_iff {ts program : List Token} :
    programOf ts = .ok program ↔
      toPostfix (infixTokens ts) = .ok program ∧ Program.check program = .ok () := by
  constructor
  · intro h
    rw [programOf] at h
    split at h
    · cases h
    · rename_i found hfound
      split at h
      · cases h
      · rename_i hcheck
        cases h
        exact ⟨hfound, hcheck⟩
  · rintro ⟨horder, hcheck⟩
    simp [programOf, horder, hcheck]

theorem compile_eq_ok_iff {source : String} {e : Expression} :
    compile source = .ok e ↔
      ∃ ts, Token.scan source = .ok ts ∧ programOf ts = .ok e.program ∧ e.source = source := by
  constructor
  · intro h
    rw [compile] at h
    split at h
    · cases h
    · rename_i ts hscan
      cases hprogram : programOf ts with
      | error d =>
        rw [hprogram] at h
        cases h
      | ok program =>
        rw [hprogram] at h
        cases h
        exact ⟨ts, hscan, hprogram, rfl⟩
  · rintro ⟨ts, hscan, hprogram, rfl⟩
    rw [compile, hscan]
    show (programOf ts).map _ = _
    rw [hprogram]
    rfl

/-- The program as text. -/
def text (e : Expression) : String := Token.listText e.program

/-- The name of a variable token. -/
def variableName? : Token → Option String
  | .var name => some name
  | _ => none

/-- The names of the variables, each once, in increasing order. -/
def freeVariables (e : Expression) : List String :=
  (e.program.filterMap variableName?).eraseDups.mergeSort fun a b => decide (a ≤ b)

/-- The value of the expression under the given bindings. -/
def evaluate (e : Expression) (bindings : Bindings) : Except EvalError Float :=
  Program.eval bindings e.program

/-- The name of the variable that runs along the horizontal axis. -/
def plotVariable : String := "x"

/-- The value of the expression at a point of the horizontal axis. -/
def evaluateAt (e : Expression) (x : Float) : Except EvalError Float :=
  e.evaluate (.only plotVariable x)

/-- Equality of meaning: the same text, and programs that agree token by token. -/
def agrees (a b : Expression) : Bool := a.source = b.source && Token.listAgrees a.program b.program

end Expression

end Plotter
