import RuleEngine.Format.Flaw
import RuleEngine.Text.Digit

/-!
# Places

A message is read into plain characters and places. A place is a percent sign with, in this order
and all but the last optional: a key between parentheses, flags, a width, a precision after a point,
one letter that has no meaning, and the character that says what is shown. A width or precision may
be left to the arguments. Two percent signs are a plain one.
-/

namespace RuleEngine.Format

inductive PlaceKey where
  | absent
  | named (key : String)
  | unclosed
  deriving DecidableEq, Repr

inductive Measure where
  | absent
  | fixed (n : Nat)
  | supplied
  deriving DecidableEq, Repr

/-- What a place shows: its character, the position of that in the message, and whether it stands
right behind a digit of a measure. -/
structure Conversion where
  char : Char
  position : Nat
  afterDigit : Bool
  deriving DecidableEq, Repr

/-- A place. It is unfinished without a conversion. -/
structure Place where
  key : PlaceKey
  flags : List Char
  width : Measure
  precision : Measure
  conversion : Option Conversion
  deriving DecidableEq, Repr

/-- A part of a message. -/
inductive Piece where
  | plain (c : Char)
  | place (p : Place)
  deriving DecidableEq, Repr

/-- The characters up to the parenthesis that closes those open, with what follows it. -/
def untilClosed : Nat → List Char → Option (List Char × List Char)
  | _, [] => none
  | 0, ')' :: cs => some ([], cs)
  | depth, c :: cs =>
    let inner := if c = '(' then depth + 1 else if c = ')' then depth - 1 else depth
    (untilClosed inner cs).map fun found => (c :: found.1, found.2)

def readKey : List Char → PlaceKey × List Char
  | '(' :: cs => match untilClosed 0 cs with
    | some (key, rest) => (.named (String.ofList key), rest)
    | none => (.unclosed, [])
  | cs => (.absent, cs)

def isFlag (c : Char) : Bool := ['-', '+', ' ', '#', '0'].contains c

def readMeasure : List Char → Measure × List Char
  | '*' :: cs => (.supplied, cs)
  | cs =>
    let digits := cs.takeWhile Char.isDigit
    if digits.isEmpty then (.absent, cs)
    else (.fixed (Text.ofDigits (digits.filterMap Text.asciiDigit?)), cs.drop digits.length)

/-- Reads a precision. A point alone stands for no digits. -/
def readPrecision : List Char → Measure × List Char
  | '.' :: cs => match readMeasure cs with
    | (.absent, rest) => (.fixed 0, rest)
    | found => found
  | cs => (.absent, cs)

/-- Leaves out a letter without meaning. -/
def dropIdle : List Char → List Char
  | c :: cs => if ['h', 'l', 'L'].contains c then cs else c :: cs
  | [] => []

/-- Reads the place that begins after a percent sign of a message of this length. -/
def readPlace (length : Nat) (cs : List Char) : Place × List Char :=
  let (key, cs) := readKey cs
  let flags := cs.takeWhile isFlag
  let measures := cs.drop flags.length
  let (width, cs) := readMeasure measures
  let (precision, cs) := readPrecision cs
  match dropIdle cs with
  | [] => (⟨key, flags, width, precision, none⟩, [])
  | c :: rest =>
    let before := measures.take (measures.length - rest.length - 1)
    let conversion := ⟨c, length - rest.length - 1, before.getLast?.any Char.isDigit⟩
    (⟨key, flags, width, precision, some conversion⟩, rest)

/-- The pieces of what is left of a message of this length; fuel bounds their number. -/
def piecesFrom (length : Nat) : Nat → List Char → List Piece
  | 0, _ | _, [] => []
  | fuel + 1, '%' :: '%' :: cs => .plain '%' :: piecesFrom length fuel cs
  | fuel + 1, '%' :: cs =>
    let (place, rest) := readPlace length cs
    .place place :: piecesFrom length fuel rest
  | fuel + 1, c :: cs => .plain c :: piecesFrom length fuel cs

def pieces (message : List Char) : List Piece := piecesFrom message.length message.length message

end RuleEngine.Format
