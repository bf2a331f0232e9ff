import RuleEngine.Document.Compile
import RuleEngine.Json.Reader
import RuleEngine.Text.Line
import RuleEngine.Text.Utf8

/-!
# Loading documents

A document in a file: its octets are UTF-8 text that holds JSON, read with line feeds for carriage
returns. Files are seen through a function from paths to octets, so loading is a function of the
path and of what the files hold.
-/

namespace RuleEngine

/-- What the files hold: the octets under a path, if they can be read. -/
abbrev Files := String → Option (List UInt8)

namespace Document

/-- The parts of a path between slashes, without empty ones and single points. -/
def pathParts (cs : List Char) : List (List Char) :=
  (cs.splitOn '/').filter fun p => !p.isEmpty && p != ['.']

/-- A path in normal form: single slashes, no parts that are a point, none at the end. Two leading
slashes are kept. -/
def normalPath (path : String) : String :=
  let cs := path.toList
  let root := match cs with
    | '/' :: '/' :: '/' :: _ => "/"
    | '/' :: '/' :: _ => "//"
    | '/' :: _ => "/"
    | _ => ""
  let parts := "/".intercalate ((pathParts cs).map String.ofList)
  if root ++ parts = "" then "." else root ++ parts

/-- The value a JSON text holds. A string that no text can hold is a fault of its own. -/
def ofJson (path text : String) : Except Error Value :=
  match Json.read text with
  | .ok v => .ok v
  | .error .malformed => malformed (.notJson path)
  | .error (.longInteger n) => .error (.fault (.longInteger n))
  | .error .loneSurrogate => .error (.fault .loneSurrogate)

/-- The plain data in a file. -/
def readFile (files : Files) (path : String) : Except Error Value :=
  let path := normalPath path
  if path.toList.contains '\x00' then .error (.fault .nulInPath)
  else match files path with
    | none => malformed (.unreadable path)
    | some bs => match Text.utf8Decode? bs with
      | none => .error (.fault .undecodable)
      | some text => ofJson path (String.ofList (Text.universalNewlines text.toList))

/-- The rules of the document in a file. Mirrors `load_rulebook`. -/
def load (files : Files) (path : String) : Except Error (List Rule) := do
  let book ← (data (← readFile files path)).parse
  (Document.book book).compile

end Document

end RuleEngine
