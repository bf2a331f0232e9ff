import RuleEngine.Fact.Canonical
import RuleEngine.Log.Record
import RuleEngine.Text.Line

/-!
# What the log writes

A record is written as plain data, or as text for a console. Plain data is what is left of a value
once it has been written as JSON: sequences are lists, the keys of maps are texts, and what JSON
does not know is text in its shown form. The text has the level and the event first, then the logger
and the fields by their names, and the fields `stack` and `exception` on lines of their own. Below
it stands the failure being handled, if it is asked for; there never is one.
-/

namespace RuleEngine

namespace Value

def plainKey (k : Value) : Except Fault String :=
  match k, k.text?, k.integer? with
  | .none, _, _ => .ok "null"
  | .bool b, _, _ => .ok (if b then "true" else "false")
  | .float x, _, _ => .ok x.json
  | _, some s, _ => .ok s
  | _, Option.none, some n => .ok (toString n)
  | _, Option.none, Option.none => .error (.badKeyword k.className)

mutual

/-- The value as plain data. -/
def plain : Value → Except Fault Value
  | .none => .ok .none
  | .bool b => .ok (.bool b)
  | .int n => .ok (.int n)
  | .float x => .ok (.float x)
  | .text s => .ok (.text s)
  | .list xs | .tuple xs => do return .list (← plainAll xs)
  | .map es => do return .map (Assoc.update [] (← plainEntries es))
  | .member m => match m.payload with
    | .text s => .ok (.text s)
    | .integer n => .ok (.int n)
    | .plain _ => .ok (.text m.inspect)
  | v => .ok (.text v.inspect)
termination_by structural v => v

def plainAll : List Value → Except Fault (List Value)
  | [] => .ok []
  | x :: xs => do
    let y ← plain x
    let ys ← plainAll xs
    return y :: ys
termination_by structural xs => xs

def plainEntries : List (Value × Value) → Except Fault (List (Value × Value))
  | [] => .ok []
  | (k, v) :: es => do
    let key ← plainKey k
    let w ← plain v
    let fs ← plainEntries es
    return (.text key, w) :: fs
termination_by structural es => es

end

end Value

namespace LogRecord

def entries (r : LogRecord) : List (Value × Value) :=
  r.fields.map (fun f => (.text f.1, f.2))
    ++ (r.event.map fun e => (.text "event", e)).toList
    ++ [(.text "level", .text r.level.name), (.text "logger", r.logger)]

def plain (r : LogRecord) : Except Fault Value := (Value.map r.entries).plain

/-- Whether a text is quoted on a console. -/
def needsQuotes (s : String) : Bool :=
  s.toList.any fun c => [' ', '\t', '=', '\r', '\n', '"', '\''].contains c

/-- The value of a field on a console. -/
def shown (v : Value) : String :=
  match v.text? with
  | some s => if needsQuotes s then v.inspect else s
  | none => v.inspect

/-- A field that continues the record on lines of its own. -/
def continuation (r : LogRecord) (name : String) : Except Fault (Option String) :=
  match (Assoc.lookup name r.fields).getD .none with
  | .none => .ok none
  | v => match v.text? with
    | some s => .ok (some s)
    | none => .error (.unaddable (.text "\n") v)

/-- The name of another logger, if a field holds one. -/
def otherLogger (r : LogRecord) : List String :=
  match (Assoc.lookup "logger_name" r.fields).getD .none with
  | .none => []
  | v => ["[" ++ v.display ++ "]"]

/-- Names of fields that have a place of their own. -/
def placedNames : List String := ["stack", "exception", "logger_name"]

def listed (r : LogRecord) : List String :=
  (Text.sortOn (·.1) (r.fields.filter fun f => !placedNames.contains f.1)).map fun f =>
    f.1 ++ "=" ++ shown f.2

/-- A line between a stack and an exception. -/
def rule : String := "\n\n" ++ String.ofList (List.replicate 79 '=') ++ "\n"

/-- The line that says that no failure is being handled. -/
def noFailure : String := "NoneType: None"

/-- A text with the line about the failure being handled, if the record has one. -/
def withFailureLine (r : LogRecord) (s : String) : String :=
  if !r.withFailure then s
  else s ++ (if s.toList.getLast? = some '\n' then "" else "\n") ++ noFailure

/-- The text of a record, but for its time. -/
def text (r : LogRecord) : Except Fault String := do
  let head := ["[" ++ r.level.name ++ "]", (r.event.map Value.display).getD "",
    "[" ++ r.logger.display ++ "]"] ++ r.otherLogger ++ r.listed
  let stack ← r.continuation "stack"
  let exception ← r.continuation "exception"
  let between := if stack.isSome && exception.isSome then rule else ""
  let shown := " ".intercalate head ++ stack.elim "" ("\n" ++ ·) ++ between
    ++ exception.elim "" ("\n" ++ ·)
  return r.withFailureLine shown ++ "\n"

end LogRecord

inductive LogOutput where
  | data (record : Value)
  | text (s : String)
  deriving Repr

namespace LogOutput

def lines : LogOutput → Nat
  | data _ => 1
  | text s => Text.lineEnds s.toList

def ofRecord (format : LogFormat) (r : LogRecord) : Except Fault LogOutput :=
  match format with
  | .json => r.plain.map data
  | .console => r.text.map text

/-- Writes what a logger is asked to log, if the settings let it through. -/
def write (settings : LogSettings) (logger : Value) (r : LogRequest) :
    Except Fault (Option LogOutput) := do
  match ← LogRecord.make settings logger r with
  | some record => (ofRecord settings.format record).map some
  | none => return none

end LogOutput

end RuleEngine
