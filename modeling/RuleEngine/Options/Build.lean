import RuleEngine.Error
import RuleEngine.Options.Basic
import RuleEngine.Pattern.Basic
import RuleEngine.Schema.Record

/-!
# Building options

Options are layered: overrides replace entries of a base, which is nothing, a map, or options built
before. The result is read as a declared record, so that given values are taken where nothing is
lost and every flaw is reported.
-/

namespace RuleEngine

/-- Entries of options: the observer may be a function of the host. -/
abbrev OptionEntries := List (Value × Supplied Observer)

/-- What options are based on: options built before, the entries of a map, or any plain value. -/
inductive OptionsBase where
  | options (o : Options)
  | entries (es : OptionEntries)
  | value (v : Value)

namespace Options

def recencies : List (String × Recency) := [("lifo", .lifo), ("fifo", .fifo)]

def budgetValue (n : Option Nat) : Value := n.elim .none fun n => .int n

def entries (o : Options) : OptionEntries :=
  [(.text "pure", .other (.bool o.pure)), (.text "recency", .other (.text o.recency.name)),
   (.text "max_steps", .other (budgetValue o.maxSteps)),
   (.text "observer", o.observer.elim (.other .none) .fit)]

def plain {α : Type} (read : Value → Checked α) (wrong : Flaw) : Supplied Observer → Checked α
  | .other v => read v
  | .fit _ => .flaw wrong

def readObserver : Supplied Observer → Checked (Option Observer)
  | .fit o => .ok (some o)
  | .other .none => .ok none
  | .other v => if v.isCallable then .ok (some fun _ => .error (.raised "TypeError" []))
      else .flaw (.rejected "observer must be callable")

def part {α : Type} (name : String) (read : Supplied Observer → Checked α) (default : α)
    (es : OptionEntries) : Checked α :=
  match Assoc.lookup (.text name) es with
  | some v => (read v).under (.field name)
  | none => .ok default

def names : List String := ["pure", "recency", "max_steps", "observer"]

/-- The options declared by entries. -/
def read (es : OptionEntries) : Checked Options :=
  (Options.mk <$> part "pure" (plain Schema.flag .flagType) false es
    <*> part "recency" (plain (Schema.choice recencies) .notAlternative) .lifo es
    <*> part "max_steps" (plain (Schema.optional Schema.natural) .integerType) none es
    <*> part "observer" readObserver none es).withFlaws
      (Schema.undeclared names (es.map fun e => (e.1, .none)))

def baseEntries : OptionsBase → Except Error OptionEntries
  | .options o => .ok o.entries
  | .entries es => .ok es
  | .value .none => .ok []
  | .value (.map es) => .ok (es.map fun e => (e.1, .other e.2))
  | .value v => misconfigured (.optionsType v.className)

/-- Names of options must be texts. -/
def checkNames (es : OptionEntries) : Except Fault Unit :=
  es.forM fun e => if e.1.text?.isSome then .ok () else .error (.badKeyword e.1.className)

/-- Names of overrides must not be among those of other arguments. -/
def checkReserved (reserved : List String) (overrides : OptionEntries) : Except Fault Unit :=
  overrides.forM fun e => match e.1.text? with
    | some s => if reserved.contains s then .error (.badKeyword s) else .ok ()
    | none => .error (.badKeyword e.1.className)

/-- The options of a base with overrides. Mirrors `build_options`. -/
def build (base : OptionsBase) (overrides : OptionEntries) : Except Error Options := do
  Fault.lift (checkReserved ["options"] overrides)
  let es := Assoc.update (← baseEntries base) overrides
  Fault.lift (checkNames es)
  (read es).toExcept (fun ds => .configuration (.invalidOptions ds)) .fault

end Options

end RuleEngine
