import RuleEngine.Text.Hex

/-!
# Flaws of messages with places

Why the places of a message cannot be filled: the message is malformed, the arguments are too few or
too many, or an argument does not suit its place.
-/

namespace RuleEngine

/-- Why the places of a message cannot be filled. A width may be read and still ask for more text
than can be held. -/
inductive FormatFlaw where
  | openKey
  | unfinished
  | width
  | memory
  | precision (ofOctets : Bool)
  | conversion (ofOctets : Bool) (c : Char) (position : Nat)
  | noMap
  | tooFew
  | unused
  | notWhole
  | unsuitable (c : Char) (cls : String)
  | nanToWhole
  | infinityToWhole
  | outOfRange
  deriving DecidableEq, Repr

namespace FormatFlaw

def label : FormatFlaw → String
  | openKey | unfinished | width | precision _ | conversion .. | nanToWhole => "ValueError"
  | noMap | tooFew | unused | notWhole | unsuitable .. => "TypeError"
  | infinityToWhole | outOfRange => "OverflowError"
  | memory => "MemoryError"

/-- A code point in hexadecimal without leading zeros. -/
def codeText (n : Nat) : String := String.ofList (Nat.toDigits 16 n)

/-- A character as it stands in a message about a text: a question mark unless it is in ASCII and
can be written. -/
def shownChar (c : Char) : Char := if 31 ≤ c.toNat ∧ c.toNat ≤ 126 then c else '?'

def message : FormatFlaw → String
  | openKey => "incomplete format key"
  | unfinished => "incomplete format"
  | width => "width too big"
  | memory => ""
  | precision ofOctets => if ofOctets then "prec too big" else "precision too big"
  | conversion ofOctets c i =>
    let shown := if ofOctets then c else shownChar c
    s!"unsupported format character '{shown}' (0x{codeText c.toNat}) at index {i}"
  | noMap => "format requires a mapping"
  | tooFew => "not enough arguments for format string"
  | unused => "not all arguments converted during string formatting"
  | notWhole => "* wants int"
  | unsuitable c cls => s!"%{c} format: a number is required, not {cls}"
  | nanToWhole => "cannot convert float NaN to integer"
  | infinityToWhole => "cannot convert float infinity to integer"
  | outOfRange => "argument out of range"

end FormatFlaw

end RuleEngine
