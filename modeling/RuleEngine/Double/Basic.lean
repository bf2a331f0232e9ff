/-!
# Double-precision numbers

A `Double` is a binary64 datum: not-a-number, an infinity, or a sign with a biased exponent and a
fraction. Every term of the type is a valid datum, so two doubles are the same datum exactly when
they are equal terms (`0.0` and `-0.0` differ).

Arithmetic never rounds twice. A finite double is a whole number of *units* of `2 ^ -1074`
(`Double.magnitude`), whole numbers are too, and `Double.ofRatio` rounds one quotient to the nearest
double, a tie going to the even neighbour. `Number` is the exact value that comparisons look at.
-/

namespace RuleEngine

/-- How many fractions there are beside an exponent. -/
def Double.fractionCount : Nat := Nat.pow 2 52

/-- A binary64 datum. -/
inductive Double where
  | nan
  | infinite (negative : Bool)
  | finite (negative : Bool) (exponent : Fin 2047) (fraction : Fin Double.fractionCount)
  deriving DecidableEq, Repr, Inhabited

/-- An exact numeric value: a whole number, or a fraction, in units of `2 ^ -1074`, that is not
one. -/
inductive Number where
  | nan
  | infinite (negative : Bool)
  | whole (n : Int)
  | fraction (units : Int)
  deriving DecidableEq, Repr, Inhabited

namespace Number

/-- The number of units in one. -/
def unitsInOne : Nat := Nat.pow 2 1074

def ofUnits (units : Int) : Number :=
  if units % unitsInOne = 0 then .whole (units / unitsInOne) else .fraction units

/-- Numeric equality: not-a-number equals nothing. -/
def eqv : Number → Number → Bool
  | .nan, _ => false
  | a, b => a == b

/-- Numeric `<`; false as soon as one side is not a number. -/
def lt : Number → Number → Bool
  | .nan, _ | _, .nan => false
  | .infinite s, .infinite t => s && !t
  | .infinite s, _ => s
  | _, .infinite t => !t
  | .whole a, .whole b | .fraction a, .fraction b => a < b
  | .whole a, .fraction b => a * unitsInOne < b
  | .fraction a, .whole b => a < b * unitsInOne

/-- Numeric `≤`. -/
def le (a b : Number) : Bool := lt a b || eqv a b

/-- The greatest whole number that is not above. -/
def floor? : Number → Option Int
  | .whole n => some n
  | .fraction u => some (u / unitsInOne)
  | _ => none

/-- The least whole number that is not below. -/
def ceiling? : Number → Option Int
  | .whole n => some n
  | .fraction u => some (u / unitsInOne + 1)
  | _ => none

/-- The whole number next to zero. -/
def truncated? (n : Number) : Option Int := if n.lt (.whole 0) then n.ceiling? else n.floor?

end Number

namespace Double

/-- Distance from zero in units of `2 ^ -1074`. -/
def magnitude (exponent : Fin 2047) (fraction : Fin fractionCount) : Nat :=
  if exponent.val = 0 then fraction.val
  else (fractionCount + fraction.val) * Nat.pow 2 (exponent.val - 1)

def number : Double → Number
  | .nan => .nan
  | .infinite s => .infinite s
  | .finite s e f => .ofUnits (if s then -(magnitude e f : Int) else magnitude e f)

/-- The `n`th double of a sign, counted away from zero; past the largest one stands infinity. -/
def ofOrdinal (negative : Bool) (n : Nat) : Double :=
  if h : n < fractionCount * 2047 then
    .finite negative ⟨n / fractionCount, Nat.div_lt_of_lt_mul h⟩
      ⟨n % fractionCount, Nat.mod_lt n (by decide)⟩
  else
    .infinite negative

/-- The quotient rounded to the nearest whole number, a half going to the even one. -/
def roundHalfEven (num den : Nat) : Nat :=
  let q := num / den
  let r := num % den
  if 2 * r < den then q else if den < 2 * r then q + 1 else q + q % 2

/-- The double nearest to `num / den` with the given sign. -/
def ofRatio (negative : Bool) (num den : Nat) : Double :=
  let units := num * Number.unitsInOne
  let shift := (units / den).log2 - 52
  ofOrdinal negative (roundHalfEven units (den * Nat.pow 2 shift) + shift * fractionCount)

def ofUnits (units : Int) : Double := ofRatio (units < 0) units.natAbs Number.unitsInOne

def ofInt (n : Int) : Double := ofRatio (n < 0) n.natAbs 1

/-- The double nearest to `digits * 10 ^ scale`. Scales far outside the range of doubles are
settled without computing the power. -/
def ofDecimal (negative : Bool) (digits : Nat) (scale : Int) : Double :=
  let width : Int := (toString digits).length
  if digits = 0 then ofOrdinal negative 0
  else if 400 < width + scale then .infinite negative
  else if width + scale < -400 then ofOrdinal negative 0
  else if 0 ≤ scale then ofRatio negative (digits * Nat.pow 10 scale.toNat) 1
  else ofRatio negative digits (Nat.pow 10 (-scale).toNat)

/-- Zero of either sign. -/
def isZero (x : Double) : Bool := x.number == .whole 0

/-- The rounded sum. A zero sum is negative only when both terms are. -/
def add : Double → Double → Double
  | .nan, _ | _, .nan => .nan
  | .infinite s, .infinite t => if s == t then .infinite s else .nan
  | .infinite s, _ => .infinite s
  | _, .infinite t => .infinite t
  | .finite s e f, .finite t e' f' =>
    let signed (s : Bool) (m : Nat) : Int := if s then -(m : Int) else m
    let sum := signed s (magnitude e f) + signed t (magnitude e' f')
    if sum = 0 then ofOrdinal (s && t) 0 else ofUnits sum

end Double

end RuleEngine
