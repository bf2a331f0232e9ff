import RuleEngine.Format.Fill
import RuleEngine.Log.Request
import RuleEngine.Text.Utf8

/-!
# Records of the log

A request that reaches the threshold becomes a record: the name of the logger, the level, the event
with its places filled, and the fields. Arguments may also be given as a field. Without arguments an
event is taken as it is. Octets are shown as the text they encode.
-/

namespace RuleEngine

/-- An entry of the log: its parts under their names. -/
structure LogRecord where
  level : LogLevel
  logger : Value
  event : Option Value
  fields : List (String × Value)
  withFailure : Bool
  deriving Repr

namespace LogRecord

/-- The name shown for the logger: that of the record a field holds, or else its own. -/
def loggerOf (logger : Value) (fields : List (String × Value)) : Except Fault Value :=
  match (Assoc.lookup "_record" fields).getD .none with
  | .none => .ok logger
  | v => do
    match ← v.attributeOf "name" with
    | some name => return name
    | none => .error (.missingAttribute v.className "name")

def size (v : Value) : Except Fault Nat :=
  match v.text?, v.integer? with
  | some s, _ => .ok s.length
  | none, some _ => .error (.notContainer v.className)
  | none, none => (v.iterate).map List.length

/-- What fills the places of an event: the arguments, or the map that is the only one. -/
def fillers (args : Value) : Except Fault Value := do
  if (← size args) = 1 then
    match ← args.item (.int 0) with
    | .map (e :: es) => return .map (e :: es)
    | _ => return args
  else return args

def filled (event args : Value) : Except Fault Value :=
  if !args.truthy then .ok event
  else do
    let args ← fillers args
    match event, event.text? with
    | .none, _ => .error (.missingKey (.text "event"))
    | .bytes bs, _ => (Format.fillOctets bs args).map .bytes
    | .buffer bs, _ => (Format.fillOctets bs args).map .buffer
    | _, some message => (Format.fill message args).map .text
    | _, none => .error (.unaddable event args)

/-- Names of fields that are not kept as they are given. -/
def replacedNames : List String := ["timestamp", "stack_info", "exc_info", "level", "logger"]

/-- The fields that are kept. Arguments are used up, but for a field that says there are none. -/
def kept (fields : List (String × Value)) : List (String × Value) :=
  fields.filter fun f => match f.1, f.2 with
    | "positional_args", .none => true
    | "positional_args", _ => false
    | n, _ => !replacedNames.contains n

/-- Octets as the text they encode. -/
def decoded : Value → Value
  | .bytes bs => .text (Text.utf8DecodeReplacing bs)
  | v => v

/-- The arguments of a request, given as such or as a field. -/
def argsOf (r : LogRequest) : Value :=
  if r.args.isEmpty then (Assoc.lookup "positional_args" r.fields).getD .none else .tuple r.args

/-- The fields of a request, those that its arguments replace left out. -/
def fieldsOf (r : LogRequest) : List (String × Value) :=
  if r.args.isEmpty then r.fields else Assoc.erase "positional_args" r.fields

def ofRequest (logger : Value) (r : LogRequest) : Except Fault LogRecord := do
  let name ← loggerOf logger r.fields
  let event ← filled r.event (argsOf r)
  let fields := (kept (fieldsOf r)).map fun f => (f.1, decoded f.2)
  return ⟨r.level, decoded name, if event == .none then none else some (decoded event), fields,
    r.withFailure⟩

/-- The record of a request, if the settings let it through. -/
def make (settings : LogSettings) (logger : Value) (r : LogRequest) :
    Except Fault (Option LogRecord) :=
  if r.level.weight < settings.threshold then .ok none
  else (ofRequest logger r).map some

end LogRecord

end RuleEngine
