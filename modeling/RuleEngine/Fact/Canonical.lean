import RuleEngine.Digest
import RuleEngine.Text.JsonQuoted
import RuleEngine.Text.Sorted
import RuleEngine.Value.Inspect

/-!
# Canonical text of a value

`Value.canonical` writes a value as JSON in a fixed layout: scalars as themselves, sequences as
arrays, and everything else as an object whose first key says what it is. The parts of maps and sets
are sorted by their own text, so the order of insertion leaves no trace. `Value.digest` is the hash
of that text.
-/

namespace RuleEngine

def Double.json : Double → String
  | .nan => "NaN"
  | .infinite s => if s then "-Infinity" else "Infinity"
  | x => x.text

namespace Value

def jsonArray (items : List String) : String := "[" ++ ",".intercalate items ++ "]"

def jsonObject (fields : List (String × String)) : String :=
  "\x7b" ++ ",".intercalate (fields.map fun f => Text.jsonQuote f.1 ++ ":" ++ f.2) ++ "\x7d"

/-- A JSON object with a single, tagging key. -/
def tagged (tag content : String) : String := jsonObject [(tag, content)]

/-- A value that only has its shown form. -/
def canonicalShown (v : Value) : String := tagged "__repr__" (Text.jsonQuote v.inspect)

/-- A record: its class and its fields in the order of their names. -/
def canonicalRecord (cls : String) (fields : List (String × String)) : String :=
  jsonObject [("__kind__", Text.jsonQuote cls), ("fields", jsonObject (Text.sortOn (·.1) fields))]

def canonicalMember (m : Member) : String :=
  match m.payload with
  | .plain _ => tagged "__enum__" (Text.jsonQuote m.path)
  | .text s => Text.jsonQuote s
  | .integer n => toString n

mutual

/-- The canonical text of a value. Mirrors `canonical_payload` and `_canonical_json`. -/
def canonical : Value → String
  | .none => "null"
  | .bool b => if b then "true" else "false"
  | .int n => toString n
  | .float x => x.json
  | .text s => Text.jsonQuote s
  | .bytes bs => tagged "__bytes__" (Text.jsonQuote (Text.hexOfBytes bs))
  | .buffer bs => canonicalShown (.buffer bs)
  | .member m => canonicalMember m
  | .list xs | .tuple xs => jsonArray (canonicalAll xs)
  | .set xs | .frozenSet xs => tagged "__set__" (jsonArray (Text.sort (canonicalAll xs)))
  | .map es => tagged "__map__" (jsonArray (Text.sort (canonicalEntries es)))
  | .object c fs => match c.sort with
    | .record _ => canonicalRecord c.name (canonicalFields fs)
    | .labelled _ => canonicalShown (.object c fs)
  | .key k r b => canonicalRecord "FactKey"
      [("kind", canonical k), ("ref", canonical r), ("by_content", canonical b)]
  | .var n => canonicalRecord "Var" [("name", Text.jsonQuote n.text)]
  | .any => canonicalShown .any
  | .method o n => canonicalShown (.method o n)
  | .cls c => canonicalShown (.cls c)
termination_by structural v => v

def canonicalAll : List Value → List String
  | [] => []
  | x :: xs => canonical x :: canonicalAll xs
termination_by structural xs => xs

/-- Entries as arrays of a key and a value. -/
def canonicalEntries : List (Value × Value) → List String
  | [] => []
  | (k, v) :: es => jsonArray [canonical k, canonical v] :: canonicalEntries es
termination_by structural es => es

def canonicalFields : List (String × Value) → List (String × String)
  | [] => []
  | (n, v) :: fs => (n, canonical v) :: canonicalFields fs
termination_by structural fs => fs

end

/-- The hash of the canonical text. Mirrors `content_digest`. -/
def digest (v : Value) : String := Digest.ofText v.canonical

end Value

end RuleEngine
