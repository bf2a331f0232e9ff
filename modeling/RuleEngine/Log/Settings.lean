import RuleEngine.Notice
import RuleEngine.Value.Attribute

/-!
# Settings of the log

A log is configured by the name of a level and by a format. Names are read in either case, and one
that means nothing stands for `INFO`. Two names mean something else than a level and are refused.
-/

namespace RuleEngine

inductive LogFormat where
  | console
  | json
  deriving DecidableEq, Repr

/-- A configured log: entries below the threshold are left out. -/
structure LogSettings where
  threshold : Nat
  format : LogFormat
  deriving DecidableEq, Repr

/-- What a name in capitals means to the log. -/
inductive LogName where
  | weight (n : Nat)
  | text (s : String)
  | table
  deriving DecidableEq, Repr

def LogLevel.weight : LogLevel → Nat
  | debug => 10
  | info => 20
  | warning => 30
  | error => 40
  | critical => 50

namespace LogSettings

/-- Letters beyond ASCII whose capitals are in ASCII. -/
def asciiCapitals : List (Char × String) :=
  [('ß', "SS"), ('ı', "I"), ('ſ', "S"), ('ﬀ', "FF"), ('ﬁ', "FI"), ('ﬂ', "FL"), ('ﬃ', "FFI"),
    ('ﬄ', "FFL"), ('ﬅ', "ST"), ('ﬆ', "ST")]

/-- A text in capitals, as far as they are in ASCII. -/
def capitals (s : String) : String :=
  String.ofList (s.toList.flatMap fun c =>
    ((asciiCapitals.lookup c).map String.toList).getD [c.toUpper])

def names : List (String × LogName) :=
  [("NOTSET", .weight 0), ("DEBUG", .weight 10), ("INFO", .weight 20), ("WARN", .weight 30),
    ("WARNING", .weight 30), ("ERROR", .weight 40), ("CRITICAL", .weight 50),
    ("FATAL", .weight 50), ("BASIC_FORMAT", .text "%(levelname)s:%(name)s:%(message)s"),
    ("_STYLES", .table)]

/-- The weight the name of a level stands for. -/
def thresholdOf (name : String) : Except Fault Nat :=
  match names.lookup (capitals name) with
  | none => .ok 20
  | some (.weight n) => .ok n
  | some (.text s) => .error (.unknownLevel s)
  | some .table => .error (.notNumber "dict")

/-- The weight a level given as any value stands for. -/
def thresholdOfValue (level : Value) : Except Fault Nat :=
  match level.text?, level.octets? with
  | some name, _ => thresholdOf name
  | none, some _ => .error (.requiresText level.className)
  | none, none => .error (.missingAttribute level.className "upper")

/-- The settings for a level and a format, of which `json` is the one that is not the console's.
Mirrors `configure_logging`. -/
def make (level format : Value) : Except Fault LogSettings :=
  (thresholdOfValue level).map fun n => ⟨n, if format == .text "json" then .json else .console⟩

/-- The settings for at most two arguments: a level and a format. -/
def ofArguments : List Value → Except Fault LogSettings
  | [] => make (.text "info") (.text "console")
  | [level] => make level (.text "console")
  | [level, format] => make level format
  | _ => .error (.uncallable "settings")

end LogSettings

end RuleEngine
