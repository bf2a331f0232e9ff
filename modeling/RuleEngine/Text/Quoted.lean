import RuleEngine.Text.Hex
import RuleEngine.Text.Printable

/-!
# Quoted text

A text is shown between apostrophes, or between quotation marks when it holds an apostrophe and no
quotation mark. The backslash, the chosen mark, line ends, tabs and characters that are not
printable are escaped. Octets are shown alike, those outside ASCII as `\\x` with two digits.
-/

namespace RuleEngine.Text

def quoteMark (cs : List Char) : Char :=
  if cs.contains '\'' && !cs.contains '"' then '"' else '\''

/-- The numeric escape of a code point: the shortest of the forms with two, four or eight digits. -/
def numericEscape (n : Nat) : List Char :=
  if n < 0x100 then '\\' :: 'x' :: hexDigits 2 n
  else if n < 0x10000 then '\\' :: 'u' :: hexDigits 4 n
  else '\\' :: 'U' :: hexDigits 8 n

/-- One character inside quotation. -/
def escapeChar (mark : Char) (c : Char) : List Char :=
  if c = mark ∨ c = '\\' then ['\\', c]
  else if c = '\n' then ['\\', 'n']
  else if c = '\r' then ['\\', 'r']
  else if c = '\t' then ['\\', 't']
  else if isPrintable c then [c]
  else numericEscape c.toNat

def quoteChars (cs : List Char) : List Char :=
  let mark := quoteMark cs
  mark :: (cs.flatMap (escapeChar mark) ++ [mark])

def quote (s : String) : String := String.ofList (quoteChars s.toList)

/-- One octet inside quotation. -/
def escapeByte (mark : Char) (b : UInt8) : List Char :=
  if b < 0x80 then escapeChar mark (Char.ofNat b.toNat) else numericEscape b.toNat

def byteMark (bs : List UInt8) : Char := quoteMark (bs.map fun b => Char.ofNat b.toNat)

def quoteBytes (bs : List UInt8) : String :=
  let mark := byteMark bs
  "b" ++ String.ofList (mark :: (bs.flatMap (escapeByte mark) ++ [mark]))

/-- Quoted octets in which the apostrophe is escaped whatever the mark. -/
def quoteBuffer (bs : List UInt8) : String :=
  let mark := byteMark bs
  "b" ++ String.ofList (mark :: (bs.flatMap (escapeByte '\'') ++ [mark]))

end RuleEngine.Text
