import RuleEngine.Text.Hex
import RuleEngine.Text.Sorted
import RuleEngine.Value.Inspect

/-!
# Hashes of values

Sets keep things apart that have different hashes, also when these are equal. `Value.hashImage` is
what the hash of a value depends on: values with one image have one hash, and values with different
images have one by chance only.

Numbers of all sorts are folded by a prime, texts and octets count as the octets they are stored in,
records as the tuple of their fields, and a set as what is left of its members when those of one
image cancel in pairs.
-/

namespace RuleEngine

namespace Number

/-- The prime by which numbers are folded. -/
def hashModulus : Nat := Nat.pow 2 61 - 1

/-- A number of either sign folded by the prime; `-1` is no hash, and `-2` stands in for it. -/
def fold (negative : Bool) (magnitude : Nat) : Int :=
  let rest : Int := (magnitude % hashModulus : Nat)
  let n := if negative then -rest else rest
  if n = -1 then -2 else n

/-- The hash of a number. A unit of `2 ^ -1074` folds to `2 ^ 24`, since the prime divides
`2 ^ 1098 - 1`. -/
def hash : Number → Int
  | .nan => 0
  | .infinite s => if s then -314159 else 314159
  | .whole n => fold (n < 0) n.natAbs
  | .fraction u => fold (u < 0) (u.natAbs * Nat.pow 2 24)

end Number

namespace Text

/-- The octets a text is stored in: one, two or four for each character, as its greatest one needs,
the lowest first. -/
def storage (s : String) : List UInt8 :=
  let codes := s.toList.map Char.toNat
  let width := if codes.all (· < 256) then 1 else if codes.all (· < 65536) then 2 else 4
  codes.flatMap fun c => (List.range width).map fun i => UInt8.ofNat (c / Nat.pow 256 i)

end Text

namespace Value

def numberImage (n : Number) : String := toString n.hash

/-- The image of octets; none at all hash like zero. -/
def octetsImage (bs : List UInt8) : String :=
  if bs.isEmpty then numberImage (.whole 0) else "x" ++ Text.hexOfBytes bs

def textImage (s : String) : String := octetsImage (Text.storage s)

def tupleImage (images : List String) : String := "(" ++ commas images ++ ")"

/-- The image of a set of things with these images: how many they are, and the images that occur an
odd number of times. -/
def setImage (images : List String) : String :=
  let odd := images.eraseDups.filter fun i => images.count i % 2 = 1
  s!"{images.length}:" ++ tupleImage (Text.sort odd)

mutual

/-- What the hash of the value depends on. -/
def hashImage : Value → String
  | .none => "none"
  | .bool b => numberImage (.whole (if b then 1 else 0))
  | .int n => numberImage (.whole n)
  | .float x => numberImage x.number
  | .text s => textImage s
  | .bytes bs | .buffer bs => octetsImage bs
  | .member m => match m.payload with
    | .plain _ => textImage m.name
    | .text s => textImage s
    | .integer n => numberImage (.whole n)
  | .list xs | .tuple xs => tupleImage (hashImages xs)
  | .set xs | .frozenSet xs => setImage (hashImages xs)
  | .map es => setImage (entryImages es)
  | .object c fs => match c.sort with
    | .record _ => tupleImage (fieldImages fs)
    | .labelled _ => tupleImage (c.name :: fieldImages fs)
  | .key k r b => tupleImage [hashImage k, hashImage r, hashImage b]
  | .var n => tupleImage [textImage n.text]
  | .any => "any"
  | .method o n => tupleImage [hashImage o, n]
  | .cls c => c.inspect
termination_by structural v => v

def hashImages : List Value → List String
  | [] => []
  | x :: xs => hashImage x :: hashImages xs
termination_by structural xs => xs

def entryImages : List (Value × Value) → List String
  | [] => []
  | (k, v) :: es => tupleImage [hashImage k, hashImage v] :: entryImages es
termination_by structural es => es

def fieldImages : List (String × Value) → List String
  | [] => []
  | (_, v) :: fs => hashImage v :: fieldImages fs
termination_by structural fs => fs

end

end Value

end RuleEngine
