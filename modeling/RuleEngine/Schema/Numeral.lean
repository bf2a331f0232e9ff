import RuleEngine.Schema.Checked
import RuleEngine.Text.Blank
import RuleEngine.Text.Digit

/-!
# Declared numerals

A text declares a whole number by ASCII digits. Around it there may be white space, in front of it
a sign. Zeros that lead and the underscores among them count for nothing, and what comes after them
may bring a minus sign of its own. A fraction of zeros behind a point is dropped, and so are single
underscores between other characters. What is left must be a plain numeral of at most 4300 digits.
A text that begins plainly and runs on beyond that is too long, whatever follows.
-/

namespace RuleEngine.Schema.Numeral

/-- The rest of a numeral after a leading zero, further zeros and the underscores among them. Before
a point and at the end the last character passed over is kept. -/
def afterZero (last : Char) : List Char → Option (List Char)
  | [] => some [last]
  | c :: cs =>
    if c = '0' ∨ c = '_' then afterZero c cs
    else if c = '-' ∨ c.isDigit then some (c :: cs)
    else if c = '.' then some (last :: c :: cs)
    else none

/-- A numeral without leading zeros. It must begin with a digit or a minus sign. -/
def dropLeadingZeros : List Char → Option (List Char)
  | [] => none
  | c :: cs =>
    if c = '0' then afterZero c cs
    else if c = '-' ∨ c.isDigit then some (c :: cs)
    else none

/-- A numeral without a fraction of zeros, of which there must be one. -/
def dropZeroFraction (cs : List Char) : List Char :=
  match cs.dropWhile (· ≠ '.') with
  | '.' :: '0' :: places => if places.all (· = '0') then cs.takeWhile (· ≠ '.') else cs
  | _ => cs

/-- A numeral without its underscores, none of which may be at either end or beside another. -/
def dropUnderscores (cs : List Char) : Option (List Char) :=
  if cs.head? = some '_' ∨ cs.getLast? = some '_' ∨ ('_', '_') ∈ cs.zip (cs.drop 1) then none
  else some (cs.filter (· ≠ '_'))

/-- A numeral behind its sign, made plain. -/
def plain? (cs : List Char) : Option (List Char) :=
  (dropLeadingZeros cs).bind fun ds => dropUnderscores (dropZeroFraction ds)

def digitLimit : Nat := 4300

/-- A numeral without its minus sign, and whether it had one. -/
def unsigned : List Char → Bool × List Char
  | '-' :: cs => (true, cs)
  | cs => (false, cs)

/-- The number of a plain numeral: zero alone, or digits that do not begin with zero. -/
def ofPlain? (cs : List Char) : Option Int :=
  let (negative, digits) := unsigned cs
  let plain := digits = ['0'] ∨ digits ≠ [] ∧ digits.head? ≠ some '0' ∧ digits.length ≤ digitLimit
  if plain ∧ digits.all Char.isDigit then
    let n := Text.ofDigits (digits.filterMap Text.asciiDigit?)
    some (if negative then -(n : Int) else n)
  else none

/-- Whether a text begins as a plain numeral with more digits than there may be. -/
def isTooLong (cs : List Char) : Bool :=
  let run := (unsigned cs).2.takeWhile Char.isDigit
  run.head? != some '0' && digitLimit < run.length

/-- The number a text declares. -/
def read (cs : List Char) : Checked Int :=
  let plain := match Text.trim Text.isNumberBlank cs with
    | '+' :: '-' :: _ => none
    | '+' :: r => plain? r
    | '-' :: r => (plain? r).map ('-' :: ·)
    | r => plain? r
  if isTooLong cs then .flaw .integerSize else (plain.bind ofPlain?).elim (.flaw .integerText) .ok

end RuleEngine.Schema.Numeral
