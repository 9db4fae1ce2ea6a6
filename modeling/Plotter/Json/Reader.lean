import Plotter.Double.Numeral
import Plotter.Json.Basic

/-!
# Reading JSON text

The reader accepts JSON and, as numbers, also the words `NaN`, `Infinity` and `-Infinity`. Of
several members of one name the last one counts. A number with a point or a power of ten is rounded
to a double; any other number is kept exactly.
-/

namespace Plotter.Json

namespace Reader

/-- Whether a character is white space between the parts of a JSON text. -/
def isSpace (c : Char) : Bool := c = ' ' || c = '\n' || c = '\r' || c = '\t'

/-- The value of a hexadecimal digit. -/
def hexDigit? (c : Char) : Option Nat :=
  if '0' ≤ c ∧ c ≤ '9' then some (c.toNat - '0'.toNat)
  else if 'a' ≤ c ∧ c ≤ 'f' then some (c.toNat - 'a'.toNat + 10)
  else if 'A' ≤ c ∧ c ≤ 'F' then some (c.toNat - 'A'.toNat + 10)
  else none

/-- The number that four hexadecimal digits denote. -/
def hexWord? (a b c d : Char) : Option Nat := do
  return (((← hexDigit? a) * 16 + (← hexDigit? b)) * 16 + (← hexDigit? c)) * 16 + (← hexDigit? d)

/-- The character that an escape with one letter stands for. -/
def escaped? : Char → Option Char
  | '"' => some '"'
  | '\\' => some '\\'
  | '/' => some '/'
  | 'b' => some '\x08'
  | 'f' => some '\x0c'
  | 'n' => some '\n'
  | 'r' => some '\r'
  | 't' => some '\t'
  | _ => none

/-- The character of two UTF-16 units, a high surrogate and a low one. -/
def ofSurrogates (high low : Nat) : Char :=
  Char.ofNat (0x10000 + (high - 0xD800) * 0x400 + (low - 0xDC00))

/-- Reads a text up to its closing quote. The characters so far are in reverse order; a high
surrogate that waits for its low one is kept beside them. A surrogate without its partner becomes
the replacement character. -/
def text? (soFar : List Char) (high : Option Nat) : List Char → Option (String × List Char)
  | '"' :: rest => some (String.ofList (pending soFar high).reverse, rest)
  | '\\' :: 'u' :: a :: b :: c :: d :: rest =>
    match hexWord? a b c d with
    | none => none
    | some n =>
      if 0xD800 ≤ n ∧ n < 0xDC00 then text? (pending soFar high) (some n) rest
      else if 0xDC00 ≤ n ∧ n < 0xE000 then
        match high with
        | some h => text? (ofSurrogates h n :: soFar) none rest
        | none => text? ('\uFFFD' :: soFar) none rest
      else text? (Char.ofNat n :: pending soFar high) none rest
  | '\\' :: c :: rest =>
    match escaped? c with
    | some e => text? (e :: pending soFar high) none rest
    | none => none
  | c :: rest => text? (c :: pending soFar high) none rest
  | [] => none
where
  /-- The characters so far, when no low surrogate follows. -/
  pending (soFar : List Char) : Option Nat → List Char
    | some _ => '\uFFFD' :: soFar
    | none => soFar

/-- Reads the characters of a number. -/
def number? (lexeme : List Char) : Option Json :=
  let (negative, digits) := match lexeme with
    | '-' :: r => (true, r)
    | r => (false, r)
  if digits ≠ [] ∧ digits.all Numeral.isDigit then
    let n : Int := Numeral.ofDigits digits
    some (.int (if negative then -n else n))
  else
    (Numeral.ofChars? digits).map fun n => .real (if negative then -n.toFloat else n.toFloat)

/-- The words that are values. -/
def words : List (List Char × Json) := [
  ("null".toList, .null), ("true".toList, .bool true), ("false".toList, .bool false),
  ("NaN".toList, .real Double.nan), ("Infinity".toList, .real Double.infinity),
  ("-Infinity".toList, .real (-Double.infinity))]

/-- Reads a word or a number. -/
def scalar? (cs : List Char) : Option (Json × List Char) :=
  match words.find? fun w => w.1.isPrefixOf cs with
  | some (word, value) => some (value, cs.drop word.length)
  | none =>
    let isNumberPart := fun c : Char =>
      Numeral.isDigit c || c = '-' || c = '+' || c = '.' || c = 'e' || c = 'E'
    (number? (cs.takeWhile isNumberPart)).map fun value => (value, cs.dropWhile isNumberPart)

/-- What is left after white space. -/
def skip (cs : List Char) : List Char := cs.dropWhile isSpace

mutual

/-- Reads a value and gives what follows it. Every second call at least consumes a character, so
twice the length of the text is enough as `fuel`. -/
def value? (fuel : Nat) (cs : List Char) : Option (Json × List Char) :=
  match fuel with
  | 0 => none
  | fuel + 1 =>
    match skip cs with
    | '"' :: rest => (text? [] none rest).map fun (s, rest) => (.string s, rest)
    | '[' :: rest =>
      match skip rest with
      | ']' :: rest => some (.array [], rest)
      | rest => items? fuel [] rest
    | '\x7b' :: rest =>
      match skip rest with
      | '\x7d' :: rest => some (.object [], rest)
      | rest => members? fuel [] rest
    | rest => scalar? rest

/-- Reads the items of an array, of which at least one is to come; those so far are in reverse
order. -/
def items? (fuel : Nat) (soFar : List Json) (cs : List Char) : Option (Json × List Char) :=
  match fuel with
  | 0 => none
  | fuel + 1 =>
    match value? fuel cs with
    | none => none
    | some (item, rest) =>
      match skip rest with
      | ',' :: rest => items? fuel (item :: soFar) rest
      | ']' :: rest => some (.array (item :: soFar).reverse, rest)
      | _ => none

/-- Reads the members of an object, of which at least one is to come. -/
def members? (fuel : Nat) (soFar : List (String × Json)) (cs : List Char) :
    Option (Json × List Char) :=
  match fuel with
  | 0 => none
  | fuel + 1 =>
    match skip cs with
    | '"' :: rest =>
      match text? [] none rest with
      | none => none
      | some (name, rest) =>
        match skip rest with
        | ':' :: rest =>
          match value? fuel rest with
          | none => none
          | some (value, rest) =>
            let soFar := setMember soFar name value
            match skip rest with
            | ',' :: rest => members? fuel soFar rest
            | '\x7d' :: rest => some (.object soFar, rest)
            | _ => none
        | _ => none
    | _ => none

end

end Reader

/-- Reads a text that is one JSON value. -/
def ofText? (s : String) : Option Json :=
  let cs := s.toList
  match Reader.value? (2 * cs.length + 2) cs with
  | some (value, rest) => if Reader.skip rest = [] then some value else none
  | none => none

end Plotter.Json
