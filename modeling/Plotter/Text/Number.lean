import Plotter.Double.Numeral
import Plotter.Text.Digit

/-!
# Numbers given as text

A value from outside may give a number as a text. Two readings are in use: one for the numbers of a
program, which admits the digits of all scripts, and one for the settings of a plot, which admits
ASCII digits only but is freer with separators.
-/

namespace Plotter.Text

/-- The ASCII character that a character counts as in a number: a blank is a space, a decimal digit
of any script the digit of the same value. No number holds a question mark, which stands for
everything else. -/
def toAscii (c : Char) : Char :=
  if c.toNat < 0x7F then c
  else if isBlank c then ' '
  else
    match digitValue? c with
    | some d => Char.ofNat ('0'.toNat + d)
    | none => '?'

/-- Whether an ASCII character is a blank. -/
def isAsciiBlank (c : Char) : Bool := c = ' ' || ('\t' ≤ c && c ≤ '\r')

/-- The characters without underscores, if each of them stands between two digits. -/
def dropSeparators? (afterDigit : Bool) : List Char → Option (List Char)
  | [] => some []
  | ['_'] => none
  | '_' :: c :: rest =>
    if afterDigit && Numeral.isDigit c then (dropSeparators? true rest).map (c :: ·) else none
  | c :: rest => (dropSeparators? (Numeral.isDigit c) rest).map (c :: ·)

/-- Reads a number of a program: blanks around it do not count, and an underscore may separate two
digits. -/
def number? (s : String) : Option Float :=
  (dropSeparators? false (strip isAsciiBlank (s.toList.map toAscii))).bind Numeral.signed?

/-- The characters without underscores, if none of them stands at an end or beside another one. -/
def dropLooseSeparators? (cs : List Char) : Option (List Char) :=
  if cs.head? = some '_' ∨ cs.getLast? = some '_' ∨ ('_', '_') ∈ cs.zip cs.tail then none
  else some (cs.filter (· ≠ '_'))

/-- Reads a bound of a range: blanks around it do not count, or else underscores may separate any
two characters, but not both. -/
def bound? (s : String) : Option Float :=
  match Numeral.signed? (strip isBlank s.toList) with
  | some x => some x
  | none => (dropLooseSeparators? s.toList).bind Numeral.signed?

/-- Why a text is not read as a whole number. -/
inductive WholeFault where
  /-- It does not denote one. -/
  | notWhole
  /-- It has too many digits. -/
  | tooLong
deriving DecidableEq, Repr

/-- The greatest number of digits, leading zeros apart, of a whole number given as text. -/
def maxDigits : Nat := 4300

/-- The number that some digits denote, of which there are not too many. -/
def ofDigits (digits : List Char) : Except WholeFault Int :=
  if digits = [] ∨ !digits.all Numeral.isDigit then .error .notWhole
  else if digits.length > maxDigits then .error .tooLong
  else .ok (Numeral.ofDigits digits)

/-- The characters without a fraction that consists of zeros only and has at least one. -/
def dropZeroFraction (cs : List Char) : List Char :=
  let fraction := (cs.dropWhile (· ≠ '.')).drop 1
  if fraction ≠ [] ∧ fraction.all (· = '0') then cs.takeWhile (· ≠ '.') else cs

/-- What counts of the characters after a leading zero. Further zeros do not, and neither do
underscores in any number; then another digit or a minus sign may follow. Where no other digit
follows, the last of the dropped characters, `last`, counts. -/
def afterZeros? (last : Char) : List Char → Option (List Char)
  | [] => some [last]
  | c :: rest =>
    if c = '0' ∨ c = '_' then afterZeros? c rest
    else if Numeral.isDigit c ∨ c = '-' then some (c :: rest)
    else if c = '.' then some (last :: c :: rest)
    else none

/-- The digits of a whole number without leading zeros, underscores and a fraction of zeros.
Where there are leading zeros, a minus sign may come before the digits. -/
def significant? (cs : List Char) : Option (List Char) :=
  let rest := match cs with
    | '0' :: rest => afterZeros? '0' rest
    | '-' :: _ => none
    | _ => some cs
  rest.bind fun rest => dropLooseSeparators? (dropZeroFraction rest)

/-- Reads a whole number after its minus sign. -/
def negated (cs : List Char) : Except WholeFault Int :=
  match significant? cs with
  | some digits => (ofDigits digits).map fun n => -n
  | none => .error .notWhole

/-- Reads a whole number without a minus sign in front. One after the leading zeros counts, unless
further zeros lead. -/
def unsigned (cs : List Char) : Except WholeFault Int :=
  match significant? cs with
  | some ('-' :: '0' :: _ :: _) => .error .notWhole
  | some ('-' :: digits) => (ofDigits digits).map fun n => -n
  | some digits => ofDigits digits
  | none => .error .notWhole

/-- Reads a whole number with an optional sign. Blanks around it do not count, underscores may
separate digits, and a fraction of zeros may follow. -/
def whole (s : String) : Except WholeFault Int :=
  match strip isBlank s.toList with
  | '-' :: cs => negated cs
  | '+' :: cs => unsigned cs
  | cs => unsigned cs

end Plotter.Text
