import RuleEngine.Double.Decimal

/-!
# Numbers in places

The digits of numbers as places show them, without their sign. Doubles are rounded once, from their
exact value, to a number of decimal places (fixed and scientific notation) or of significant digits
(general notation, which takes the scientific form for very small and for large numbers and drops
trailing zeros). An alternate form keeps the decimal point and those zeros.
-/

namespace RuleEngine.Format

/-- How the digits of a double are laid out. -/
inductive DoubleStyle where
  | fixed
  | scientific
  | general
  deriving DecidableEq, Repr

def decimal (n : Nat) : List Char := (toString n).toList

/-- Digits, with zeros in front up to a least number of them. -/
def zeroExtended (least : Nat) (digits : List Char) : List Char :=
  List.replicate (least - digits.length) '0' ++ digits

/-- The digits of `n` with a point before the last `places` of them. Without places the point is
left out, unless `point` asks for it. -/
def pointed (point : Bool) (places n : Nat) : List Char :=
  let digits := zeroExtended (places + 1) (decimal n)
  let (whole, part) := digits.splitAt (digits.length - places)
  whole ++ (if part.isEmpty && !point then [] else '.' :: part)

/-- The digits without zeros at the end of the decimal places, nor a point at the end. -/
def stripped (digits : List Char) : List Char :=
  if digits.contains '.' then ((digits.reverse.dropWhile (· == '0')).dropWhile (· == '.')).reverse
  else digits

/-- Every digit of a double stands between the places 10³⁰⁸ and 10⁻¹⁰⁷⁴, so that only zeros follow
its first digits or decimal places when there are this many of them. -/
def digitLimit : Nat := 308 + 1 + 1074

/-- The zeros that follow when more digits than the limit are asked for. -/
def zerosBeyond (count : Nat) : List Char := List.replicate (count - digitLimit) '0'

/-- The first `count` digits of a magnitude, rounded, and the power of ten of the first. -/
def leading (count magnitude : Nat) : Nat × Int :=
  if magnitude = 0 then (0, 0)
  else
    let top := Double.leadingScale magnitude
    let digits := Double.roundedAt magnitude (top + 1 - count)
    if digits = Nat.pow 10 count then (Nat.pow 10 (count - 1), top + 1) else (digits, top)

def fixed (point : Bool) (places magnitude : Nat) : List Char :=
  let shown := min places digitLimit
  pointed point shown (Double.roundedAt magnitude (-(shown : Int))) ++ zerosBeyond places

/-- A magnitude with one digit before the point and an exponent. -/
def scientific (point : Bool) (places magnitude : Nat) : List Char :=
  let shown := min places digitLimit
  let (digits, top) := leading (shown + 1) magnitude
  pointed point shown digits ++ zerosBeyond places ++ (Double.exponentText top).toList

/-- A magnitude with significant digits, of which there is at least one. -/
def general (point : Bool) (digits magnitude : Nat) : List Char :=
  let count := max digits 1
  let shown := min count digitLimit
  let finish (cs : List Char) := if point then cs ++ zerosBeyond count else stripped cs
  let (ds, top) := leading shown magnitude
  if top < -4 ∨ (shown : Int) ≤ top then
    finish (pointed point (shown - 1) ds) ++ (Double.exponentText top).toList
  else finish (pointed point ((shown : Int) - 1 - top).toNat ds)

def magnitudeDigits (style : DoubleStyle) (point : Bool) (precision magnitude : Nat) : List Char :=
  match style with
  | .fixed => fixed point precision magnitude
  | .scientific => scientific point precision magnitude
  | .general => general point precision magnitude

def double (style : DoubleStyle) (point : Bool) (precision : Nat) : Double → Bool × List Char
  | .nan => (false, "nan".toList)
  | .infinite s => (s, "inf".toList)
  | .finite s e f => (s, magnitudeDigits style point precision (Double.magnitude e f))

end RuleEngine.Format
