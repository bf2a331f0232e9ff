import RuleEngine.Text.Hex

/-!
# Quoted text in JSON

A text between quotation marks. The mark, the backslash and control characters below `0x20` are
escaped, by their short form where there is one; all other characters stand for themselves.
-/

namespace RuleEngine.Text

def jsonEscape (c : Char) : List Char :=
  if c = '"' ∨ c = '\\' then ['\\', c]
  else if c = '\n' then ['\\', 'n']
  else if c = '\r' then ['\\', 'r']
  else if c = '\t' then ['\\', 't']
  else if c = '\x0c' then ['\\', 'f']
  else if c = '\x08' then ['\\', 'b']
  else if c.toNat < 0x20 then '\\' :: 'u' :: hexDigits 4 c.toNat
  else [c]

/-- The JSON string of a text. -/
def jsonQuote (s : String) : String := String.ofList ('"' :: (s.toList.flatMap jsonEscape ++ ['"']))

end RuleEngine.Text
