import RuleEngine.Schema.Numeral
import RuleEngine.Text.Utf8
import RuleEngine.Value.Container

/-!
# Declared scalars

Texts, whole numbers and flags as documents and options declare them. Values of related types are
taken where nothing is lost: octets and enumeration members for texts, numerals and whole doubles
for numbers, a few words and the numbers zero and one for flags.
-/

namespace RuleEngine.Schema

def text (v : Value) : Checked String :=
  match v with
  | .text s => .ok s
  | .bytes bs | .buffer bs => match Text.utf8Decode? bs with
    | some s => .ok s
    | none => .flaw .textEncoding
  | .member m => match m.payload with
    | .text s => .ok s
    | .plain n | .integer n => .ok (toString n)
  | _ => .flaw .textType

def fullText (v : Value) : Checked String :=
  (text v).andThen fun s => if s = "" then .flaw .textTooShort else .ok s

/-- The characters of a text or of octets that are read like one; no text at all if they are not
well formed. -/
def characters? (v : Value) : Option (Option (List Char)) :=
  match v with
  | .bytes bs => some ((Text.utf8Decode? bs).map String.toList)
  | _ => v.text?.map fun s => some s.toList

/-- Whole numbers of this distance from zero, and of greater ones, do not fit a machine word. -/
def wordBound : Nat := Nat.pow 2 63

/-- The whole number of a double, whose distance from zero must be below `2 ^ 63`. -/
def integerOfDouble (x : Double) : Checked Int :=
  match x.number with
  | .whole n => if n.natAbs < wordBound then .ok n else .flaw .integerSize
  | .fraction _ => .flaw .integerFraction
  | _ => .flaw .integerInfinite

def integer (v : Value) : Checked Int :=
  match v.integer?, characters? v, v with
  | some n, _, _ => .ok n
  | _, some (some cs), _ => Numeral.read cs
  | _, some none, _ => .flaw .integerText
  | _, _, .float x => integerOfDouble x
  | _, _, .member ⟨_, _, .plain n⟩ => .ok n
  | _, _, _ => .flaw .integerType

/-- A declared whole number that must not be negative. -/
def natural (v : Value) : Checked Nat :=
  (integer v).andThen fun n => if n < 0 then .flaw .integerNegative else .ok n.toNat

def falseWords : List String := ["0", "off", "f", "false", "n", "no"]

def trueWords : List String := ["1", "on", "t", "true", "y", "yes"]

/-- The flag a text writes, in either case of letters. -/
def flagOfText (cs : List Char) : Checked Bool :=
  let word := String.ofList (cs.map Char.toLower)
  if falseWords.contains word then .ok false
  else if trueWords.contains word then .ok true
  else .flaw .flagText

/-- The flag a number stands for. -/
def flagOfInteger (n : Int) : Checked Bool :=
  if n = 0 then .ok false
  else if n = 1 then .ok true
  else if -wordBound ≤ n ∧ n < wordBound then .flaw .flagText
  else .flaw .flagType

def flag (v : Value) : Checked Bool :=
  match v.integer?, characters? v, v with
  | some n, _, _ => flagOfInteger n
  | _, some (some cs), _ => flagOfText cs
  | _, some none, _ => .flaw .flagText
  | _, _, .float x => match integerOfDouble x with
    | .ok n => flagOfInteger n
    | _ => .flaw .flagType
  | _, _, _ => .flaw .flagType

def choice {α : Type} (alternatives : List (String × α)) (v : Value) : Checked α :=
  match v.text?.bind fun s => alternatives.lookup s with
  | some a => .ok a
  | none => .flaw .notAlternative

/-- A declared value that may be left open by none. -/
def optional {α : Type} (read : Value → Checked α) (v : Value) : Checked (Option α) :=
  match v with
  | .none => .ok none
  | _ => (read v).map some

end RuleEngine.Schema
