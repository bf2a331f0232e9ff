import RuleEngine.Log.Settings

/-!
# Requests to log

A logger has a name and is asked to log by method: a level's name, one of its other names, or `log`,
whose first argument is the weight of a level. What is logged is an event, arguments for its places,
and named fields. Some names of fields are taken by the methods themselves.
-/

namespace RuleEngine

/-- Something a logger is asked to log, perhaps together with the failure being handled. -/
structure LogRequest where
  level : LogLevel
  event : Value
  args : List Value
  fields : List (String × Value)
  withFailure : Bool
  deriving Repr

/-- The name of the logger asked for: nothing in particular asks for the root. -/
def loggerName (v : Value) : Except Fault Value :=
  if !v.truthy || v == .text "root" then .ok (.text "root")
  else if v.text?.isSome then .ok v
  else .error (.requiresText v.className)

def LogLevel.ofMethod? (method : String) : Option LogLevel :=
  [("debug", debug), ("info", info), ("warning", warning), ("warn", warning), ("error", error),
    ("exception", error), ("critical", critical), ("fatal", critical)].lookup method

def LogLevel.ofWeight (weight : Value) : Except Fault LogLevel := do
  weight.checkHashable
  match [debug, info, warning, error, critical].find? fun l => Value.int l.weight == weight with
  | some level => return level
  | none => .error (.missingKey weight)

namespace LogRequest

/-- Fields by their names, which must be texts. -/
def named : List (Value × Value) → Except Fault (List (String × Value))
  | [] => .ok []
  | (k, v) :: es => match k.text? with
    | none => .error (.badKeyword k.className)
    | some n => (named es).map fun fields => (n, v) :: fields

/-- Fails if a field has one of these names. -/
def checkFree (taken : List String) (fields : List (String × Value)) : Except Fault Unit :=
  match fields.find? fun f => taken.contains f.1 with
  | some f => .error (.uncallable f.1)
  | none => .ok ()

/-- The method that also logs the failure being handled. -/
def failureMethod : String := "exception"

/-- Names of fields that no method takes. -/
def takenNames : List String := ["self", "event", "method_name"]

/-- The request a call of a logger's method makes. -/
def make (method : String) (event : Value) (args : List Value) (fields : List (Value × Value)) :
    Except Fault LogRequest :=
  match LogLevel.ofMethod? method with
  | some level => do
    let fields ← named fields
    checkFree takenNames fields
    return ⟨level, event, args, fields, method == failureMethod⟩
  | none =>
    if method = "log" then do
      let fields ← named fields
      checkFree ["self", "level", "event"] fields
      let level ← LogLevel.ofWeight event
      checkFree takenNames fields
      return ⟨level, args.headD .none, args.drop 1, fields, false⟩
    else .error (.missingAttribute "logger" method)

end LogRequest

end RuleEngine
