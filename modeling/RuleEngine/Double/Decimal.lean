import RuleEngine.Double.Basic

/-!
# Decimal text of doubles

`Double.text` writes the fewest significant digits that read back as the same double, and of those
the nearest. The layout is positional from `0.0001` up to below `10 ^ 16` and scientific elsewhere,
with a sign and at least two digits in the exponent; a whole number keeps `.0`.
-/

namespace RuleEngine.Double

/-- Decimal digits and a power of ten: `digits * 10 ^ scale`. -/
structure Decimal where
  digits : Nat
  scale : Int
  deriving DecidableEq, Repr

namespace Decimal

/-- The same number without trailing zeros; `fuel` bounds how many are dropped. -/
def strip : Nat → Decimal → Decimal
  | 0, d => d
  | fuel + 1, d =>
    if d.digits ≠ 0 ∧ d.digits % 10 = 0 then strip fuel ⟨d.digits / 10, d.scale + 1⟩ else d

def toDouble (negative : Bool) (d : Decimal) : Double := ofDecimal negative d.digits d.scale

end Decimal

/-- How many times `num` must be multiplied by ten to reach `den`, at most `fuel`. -/
def tenfolds (den : Nat) : Nat → Nat → Nat
  | 0, _ => 0
  | fuel + 1, num => if num < den then tenfolds den fuel (num * 10) + 1 else 0

/-- The power of ten of the leading digit of `magnitude` units. -/
def leadingScale (magnitude : Nat) : Int :=
  let whole := magnitude / Number.unitsInOne
  if whole = 0 then -(tenfolds Number.unitsInOne 400 magnitude : Int)
  else ((toString whole).length : Int) - 1

/-- `magnitude` units in steps of `10 ^ scale`, as a quotient. -/
def stepsAt (magnitude : Nat) (scale : Int) : Nat × Nat :=
  if scale < 0 then (magnitude * Nat.pow 10 (-scale).toNat, Number.unitsInOne)
  else (magnitude, Number.unitsInOne * Nat.pow 10 scale.toNat)

/-- `magnitude` units rounded to steps of `10 ^ scale`, a tie going to the even number of them. -/
def roundedAt (magnitude : Nat) (scale : Int) : Nat :=
  let (num, den) := stepsAt magnitude scale
  roundHalfEven num den

/-- The two neighbours of `magnitude` units on the grid of `10 ^ scale`, the nearer one first
(of two equally near the even one). -/
def neighbours (magnitude : Nat) (scale : Int) : List Decimal :=
  let (num, den) := stepsAt magnitude scale
  let low := num / den
  let near := roundedAt magnitude scale
  [⟨near, scale⟩, ⟨if near = low then low + 1 else low, scale⟩]

/-- The decimals tried for `magnitude` units: its neighbours on the grids from one significant digit
to seventeen, without trailing zeros. -/
def candidates (magnitude : Nat) : List Decimal :=
  let top := leadingScale magnitude
  (List.range 17).flatMap fun (n : Nat) => (neighbours magnitude (top - n)).map (Decimal.strip 400)

/-- The decimal that stands for a finite double: the first candidate that reads back, else the exact
decimal. -/
def shortest (negative : Bool) (exponent : Fin 2047) (fraction : Fin fractionCount) : Decimal :=
  let m := magnitude exponent fraction
  let readsBack (d : Decimal) := d.toDouble negative == .finite negative exponent fraction
  ((candidates m).find? readsBack).getD ((Decimal.mk (m * Nat.pow 5 1074) (-1074)).strip 1100)

/-- An exponent with its letter, a sign and at least two digits. -/
def exponentText (exponent : Int) : String :=
  let digits := toString exponent.natAbs
  "e" ++ (if exponent < 0 then "-" else "+")
    ++ (if digits.length < 2 then "0" ++ digits else digits)

def Decimal.layout (d : Decimal) : String :=
  let ds := toString d.digits
  let point : Int := ds.length + d.scale
  if -4 < point ∧ point ≤ 16 then
    if point ≤ 0 then "0." ++ String.ofList (List.replicate (-point).toNat '0') ++ ds
    else if (ds.length : Int) ≤ point then
      ds ++ String.ofList (List.replicate (point - ds.length).toNat '0') ++ ".0"
    else
      let (whole, places) := ds.toList.splitAt point.toNat
      String.ofList whole ++ "." ++ String.ofList places
  else
    let head := String.ofList (ds.toList.take 1)
    let tail := ds.toList.drop 1
    head ++ (if tail.isEmpty then "" else "." ++ String.ofList tail) ++ exponentText (point - 1)

def text : Double → String
  | .nan => "nan"
  | .infinite s => if s then "-inf" else "inf"
  | .finite s e f => (if s then "-" else "") ++
      (if magnitude e f = 0 then "0.0" else (shortest s e f).layout)

/-- The number written by decimal digits alone, if there is at least one. -/
def digits? (cs : List Char) : Option Nat :=
  if cs.isEmpty ∨ !cs.all Char.isDigit then none
  else some (cs.foldl (fun n c => 10 * n + (c.toNat - '0'.toNat)) 0)

/-- An exponent: an optional sign and digits. -/
def exponent? : List Char → Option Int
  | '-' :: cs => (digits? cs).map fun n => -(n : Int)
  | '+' :: cs => (digits? cs).map Int.ofNat
  | cs => (digits? cs).map Int.ofNat

/-- An unsigned decimal: digits, then perhaps a point with digits, then perhaps an exponent. -/
def unsigned? (negative : Bool) (cs : List Char) : Option Double := do
  let whole := cs.takeWhile Char.isDigit
  let rest := cs.dropWhile Char.isDigit
  let (places, rest) := match rest with
    | '.' :: r => (r.takeWhile Char.isDigit, r.dropWhile Char.isDigit)
    | r => ([], r)
  let n ← digits? (whole ++ places)
  let e ← match rest with
    | [] => some 0
    | c :: r => if c = 'e' ∨ c = 'E' then exponent? r else none
  some (ofDecimal negative n (e - places.length))

def ofText? (s : String) : Option Double :=
  match s.toList with
  | '-' :: cs => if cs = "inf".toList then some (.infinite true) else unsigned? true cs
  | cs =>
    if cs = "inf".toList then some (.infinite false)
    else if cs = "nan".toList then some .nan
    else unsigned? false cs

end RuleEngine.Double
