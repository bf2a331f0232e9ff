/-!
# Lines

The characters that end a line, of which a carriage return and the line feed after it count as one
end. A text that is read from a file has line feeds alone for carriage returns.
-/

namespace RuleEngine.Text

def isLineEnd (c : Char) : Bool :=
  ['\n', '\x0b', '\x0c', '\r', '\x1c', '\x1d', '\x1e', '\u0085', '\u2028', '\u2029'].contains c

def lineEnds : List Char → Nat
  | [] => 0
  | '\r' :: '\n' :: cs => lineEnds cs + 1
  | c :: cs => lineEnds cs + (if isLineEnd c then 1 else 0)

/-- The characters of a file with a line feed for each carriage return, which stands for the line
feed after it as well. -/
def universalNewlines : List Char → List Char
  | [] => []
  | '\r' :: '\n' :: cs => '\n' :: universalNewlines cs
  | '\r' :: cs => '\n' :: universalNewlines cs
  | c :: cs => c :: universalNewlines cs

end RuleEngine.Text
