import Plotter.Double.Numeral
import Plotter.Text.Quoted
import Plotter.Token.Basic

/-!
# From source text to tokens

The source is cut into maximal runs: digits and points make a number, ASCII letters make the name of
a function or a variable, every other character stands alone, and plain spaces separate. The first
character that fits nowhere, or the first numeric run that is no number, ends the scan.
-/

namespace Plotter

/-- What is wrong at the place where a scan ends early. -/
inductive LexFault where
  /-- The character begins no token. -/
  | stray
  /-- The run of digits and points that begins here is not a number. -/
  | badNumber (lexeme : String)
deriving DecidableEq, Repr

/-- The reason why a source has no tokens. -/
structure LexError where
  /-- The number of characters before the offending one. -/
  position : Nat
  /-- The offending character, or the first one of a bad number. -/
  character : Char
  /-- What is wrong with it. -/
  fault : LexFault
deriving DecidableEq, Repr

namespace LexError

/-- A note on a bad number; empty for a stray character. -/
def detail (e : LexError) : String :=
  match e.fault with
  | .stray => ""
  | .badNumber lexeme => "invalid number " ++ Text.quoted lexeme

/-- The message for the user. -/
def message (e : LexError) : String :=
  let place := "Unexpected character " ++ Text.quoted e.character.toString ++ " at position " ++
    toString e.position
  if e.detail = "" then place else place ++ ": " ++ e.detail

end LexError

namespace Token

/-- Whether a character belongs to a numeric run. -/
def isNumeric (c : Char) : Bool := Numeral.isDigit c || c = '.'

/-- The number of a numeric run, which has at least one digit and at most one point. -/
def number? (run : List Char) : Option Float := (Numeral.ofChars? run).map Numeral.toFloat

/-- The token of a name. Only the functions that a user can type are told apart from variables. -/
def ofName (name : String) : Token :=
  if isUserFunction name then .function name else .var name

/-- The token of a character that stands alone. -/
def ofSymbol? (c : Char) : Option Token :=
  if c = '(' then some .leftParen
  else if c = ')' then some .rightParen
  else if (BinaryOp.ofSymbol? c.toString).isSome then some (.operator c.toString)
  else none

/-- The tokens of a source from a position on. -/
def scanFrom (position : Nat) : List Char → Except LexError (List Token)
  | [] => .ok []
  | c :: cs =>
    if c = ' ' then scanFrom (position + 1) cs
    else if isNumeric c then
      let run := c :: cs.takeWhile isNumeric
      match number? run with
      | some value =>
        (scanFrom (position + run.length) (cs.dropWhile isNumeric)).map (.number value :: ·)
      | none => .error ⟨position, c, .badNumber (String.ofList run)⟩
    else if c.isAlpha then
      let run := c :: cs.takeWhile Char.isAlpha
      (scanFrom (position + run.length) (cs.dropWhile Char.isAlpha)).map
        (ofName (String.ofList run) :: ·)
    else
      match ofSymbol? c with
      | some token => (scanFrom (position + 1) cs).map (token :: ·)
      | none => .error ⟨position, c, .stray⟩
termination_by cs => cs.length
decreasing_by
  all_goals
    have numeric := (List.dropWhile_sublist (l := cs) isNumeric).length_le
    have alphabetic := (List.dropWhile_sublist (l := cs) Char.isAlpha).length_le
    simp only [List.length_cons]
    omega

/-- The tokens of a source text. -/
def scan (source : String) : Except LexError (List Token) := scanFrom 0 source.toList

end Token

end Plotter
