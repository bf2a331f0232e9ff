import RuleEngine.Double.Decimal
import RuleEngine.Text.Digit
import RuleEngine.Text.Hex
import RuleEngine.Value.Equality

/-!
# Reading JSON

JSON text as a value. Besides the standard grammar `NaN`, `Infinity` and `-Infinity` are numbers; of
several entries under one key the last counts, in the place of the first. A number without point and
exponent is a whole number of any size up to 4300 digits. A string that escapes half of a surrogate
pair alone is none that a text can hold; it is refused with an error of its own.
-/

namespace RuleEngine.Json

/-- Why a text cannot be read. -/
inductive ReadError where
  | malformed
  | longInteger (digits : Nat)
  | loneSurrogate
  deriving DecidableEq, Repr

def isSpace (c : Char) : Bool := c = ' ' || c = '\t' || c = '\n' || c = '\r'

/-- The text from its next token on. -/
def skip (cs : List Char) : List Char := cs.dropWhile isSpace

def hexNumber? (cs : List Char) : Option Nat :=
  cs.foldlM (fun n c => (Text.hexValue? c).map (16 * n + ·)) 0

/-- The character of an escape with one letter. -/
def shortEscape? : Char → Option Char
  | '"' => some '"'
  | '\\' => some '\\'
  | '/' => some '/'
  | 'b' => some '\x08'
  | 'f' => some '\x0c'
  | 'n' => some '\n'
  | 'r' => some '\r'
  | 't' => some '\t'
  | _ => none

/-- A code point written by two halves, if they are the halves of one. -/
def pair? (high low : Nat) : Option Char :=
  if 0xd800 ≤ high ∧ high < 0xdc00 ∧ 0xdc00 ≤ low ∧ low < 0xe000 then
    some (Char.ofNat (0x10000 + (high - 0xd800) * 0x400 + (low - 0xdc00)))
  else none

/-- The number of four hexadecimal digits, with the text behind them. -/
def hexCode? (cs : List Char) : Option (Nat × List Char) :=
  if cs.length < 4 then none else (hexNumber? (cs.take 4)).map fun n => (n, cs.drop 4)

/-- The character that a half of a pair writes with the escape behind it, if that is the other half,
with the text behind both. -/
def paired? (high : Nat) : List Char → Option (Char × List Char)
  | '\\' :: 'u' :: r => do
    let (low, r) ← hexCode? r
    let c ← pair? high low
    some (c, r)
  | _ => none

/-- The character with this number, unless it is that of a half of a pair. -/
def scalar? (n : Nat) : Option Char := if n.isValidChar then some (Char.ofNat n) else none

/-- The character of a numeric escape behind `\u`, with the text behind it. -/
def numericEscape (cs : List Char) : Except ReadError (Char × List Char) :=
  match hexCode? cs with
  | none => .error .malformed
  | some (high, r) => match paired? high r, scalar? high with
    | some found, _ => .ok found
    | none, some c => .ok (c, r)
    | none, none => .error .loneSurrogate

/-- The characters of a string up to its closing mark, each step using up fuel. -/
def readChars : Nat → List Char → Except ReadError (List Char × List Char)
  | 0, _ => .error .malformed
  | fuel + 1, cs => match cs with
    | '"' :: r => .ok ([], r)
    | '\\' :: 'u' :: r => do
      let (c, r) ← numericEscape r
      let (s, r) ← readChars fuel r
      return (c :: s, r)
    | '\\' :: e :: r => match shortEscape? e with
      | some c => do
        let (s, r) ← readChars fuel r
        return (c :: s, r)
      | none => .error .malformed
    | c :: r =>
      if c = '\\' ∨ c.toNat < 0x20 then .error .malformed
      else do
        let (s, r) ← readChars fuel r
        return (c :: s, r)
    | [] => .error .malformed

/-- A string behind its opening mark. -/
def readString (cs : List Char) : Except ReadError (String × List Char) := do
  let (s, r) ← readChars (cs.length + 1) cs
  return (String.ofList s, r)

def spanDigits (cs : List Char) : List Char × List Char :=
  (cs.takeWhile Char.isDigit, cs.dropWhile Char.isDigit)

/-- The digits of a whole number: a single zero, or digits that do not begin with one. -/
def wholeDigits (cs : List Char) : List Char × List Char :=
  match cs with
  | '0' :: r => (['0'], r)
  | _ => spanDigits cs

/-- Digits behind a point, if a point with digits follows. -/
def placeDigits (cs : List Char) : Option (List Char) × List Char :=
  match cs with
  | '.' :: r => match spanDigits r with
    | ([], _) => (none, cs)
    | (ds, rest) => (some ds, rest)
  | _ => (none, cs)

/-- Whether the sign in front of an exponent is negative, and what stands behind it. -/
def splitSign : List Char → Bool × List Char
  | '-' :: r => (true, r)
  | '+' :: r => (false, r)
  | r => (false, r)

/-- An exponent, if a whole one follows. -/
def exponentDigits (cs : List Char) : Option Int × List Char :=
  match cs with
  | e :: r =>
    if e = 'e' ∨ e = 'E' then
      let (negative, r) := splitSign r
      let (ds, r) := spanDigits r
      match Double.digits? ds with
      | some n => (some (if negative then -(n : Int) else n), r)
      | none => (none, cs)
    else (none, cs)
  | [] => (none, cs)

def readNumber (negative : Bool) (cs : List Char) : Except ReadError (Value × List Char) :=
  let (whole, rest) := wholeDigits cs
  let (places, rest) := placeDigits rest
  let (exponent, rest) := exponentDigits rest
  match Double.digits? whole, places, exponent with
  | none, _, _ => .error .malformed
  | some n, none, none =>
    if 4300 < whole.length then .error (.longInteger whole.length)
    else .ok (.int (if negative then -(n : Int) else n), rest)
  | some _, _, _ =>
    let ds := places.getD []
    let n := (Double.digits? (whole ++ ds)).getD 0
    .ok (.float (Double.ofDecimal negative n (exponent.getD 0 - ds.length)), rest)

/-- The rest of a text behind a word. -/
def word? (w : String) (cs : List Char) : Option (List Char) :=
  if w.toList.isPrefixOf cs then some (cs.drop w.length) else none

def words : List (String × Value) :=
  [("null", .none), ("true", .bool true), ("false", .bool false), ("NaN", .float .nan),
   ("Infinity", .float (.infinite false)), ("-Infinity", .float (.infinite true))]

def readPlain (cs : List Char) : Except ReadError (Value × List Char) :=
  match words.findSome? fun w => (word? w.1 cs).map fun r => (w.2, r) with
  | some found => .ok found
  | none => match cs with
    | '-' :: r => readNumber true r
    | _ => readNumber false cs

/-- The key of an entry, with the text from its value on. -/
def readKey (cs : List Char) : Except ReadError (String × List Char) :=
  match cs with
  | '"' :: r => do
    let (k, r) ← readString r
    match skip r with
    | ':' :: r => return (k, skip r)
    | _ => .error .malformed
  | _ => .error .malformed

mutual

/-- A value at its first token. -/
def readValue : Nat → List Char → Except ReadError (Value × List Char)
  | 0, _ => .error .malformed
  | fuel + 1, cs => match cs with
    | '"' :: r => do
      let (s, r) ← readString r
      return (.text s, r)
    | '[' :: r => match skip r with
      | ']' :: r => .ok (.list [], r)
      | r => do
        let (xs, r) ← readItems fuel r
        return (.list xs, r)
    | '\x7b' :: r => match skip r with
      | '\x7d' :: r => .ok (.map [], r)
      | r => do
        let (es, r) ← readEntries fuel r
        return (.map (Assoc.update [] es), r)
    | _ => readPlain cs

/-- The items of an array up to its end, at least one. -/
def readItems : Nat → List Char → Except ReadError (List Value × List Char)
  | 0, _ => .error .malformed
  | fuel + 1, cs => do
    let (x, r) ← readValue fuel cs
    match skip r with
    | ']' :: r => return ([x], r)
    | ',' :: r => do
      let (xs, r) ← readItems fuel (skip r)
      return (x :: xs, r)
    | _ => .error .malformed

/-- The entries of an object up to its end, at least one. -/
def readEntries : Nat → List Char → Except ReadError (List (Value × Value) × List Char)
  | 0, _ => .error .malformed
  | fuel + 1, cs => do
    let (k, r) ← readKey cs
    let (v, r) ← readValue fuel r
    match skip r with
    | '\x7d' :: r => return ([(.text k, v)], r)
    | ',' :: r => do
      let (es, r) ← readEntries fuel (skip r)
      return ((.text k, v) :: es, r)
    | _ => .error .malformed

end

/-- The value a whole text writes. A bracket takes two steps, one for the value and one for what is
in it. -/
def read (s : String) : Except ReadError Value := do
  let cs := s.toList
  let (v, r) ← readValue (2 * cs.length + 1) (skip cs)
  if (skip r).isEmpty then return v else .error .malformed

end RuleEngine.Json
