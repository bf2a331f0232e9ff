import RuleEngine.Agenda
import RuleEngine.Options.Build
import RuleEngine.Source.Compile
import RuleEngine.View

/-!
# Sessions

A session owns rules, a working memory, the agenda of pending activations and the tokens of those
that have fired. Every operation gives a new session. A session is built from rule sources and
options; rules of one session have different names.
-/

namespace RuleEngine

/-- A rule session. -/
structure Session extends View where
  rules : List Rule

/-- Whether a session has pending activations. -/
inductive SessionState where
  | idle
  | ready
  deriving DecidableEq, Repr

def SessionState.name : SessionState → String
  | idle => "idle"
  | ready => "ready"

namespace Session

def rule? (s : Session) (name : Name) : Option Rule :=
  s.rules.find? fun r => r.name.text == name.text

/-- mirrors `Session.state` -/
def state (s : Session) : SessionState := if s.pending.isEmpty then .idle else .ready

/-- Counters and sizes under their names. Mirrors `Session.metrics`. -/
def metrics (s : Session) : List (String × Nat) :=
  [("asserted", s.counters.asserted), ("retracted", s.counters.retracted),
   ("upserted", s.counters.upserted), ("agenda_builds", s.counters.agendaBuilds),
   ("fired", s.counters.fired), ("effects", s.counters.effects), ("facts", s.memory.size),
   ("agenda", s.pending.length), ("tokens", s.tokens.length),
   ("once_tokens", s.onceTokens.length)]

def inspect (s : Session) : String :=
  s!"Session(rules={s.rules.length}, facts={s.memory.size}, agenda={s.pending.length}, "
    ++ s!"state={s.state.name})"

/-- The first rule whose name an earlier one has. -/
def duplicate? : List String → List Rule → Option Rule
  | _, [] => none
  | seen, r :: rs =>
    if seen.contains r.name.text then some r else duplicate? (r.name.text :: seen) rs

/-- The session of rules with different names, without history. -/
def ofRules (rules : List Rule) (options : Options) : Except Error Session :=
  match duplicate? [] rules with
  | some r => misconfigured (.duplicateRule r.name)
  | none => .ok ⟨.initial options, rules⟩

/-- Words that overrides may not use. -/
def reservedNames : List String := ["cls", "rules", "options"]

def isMissing : Source → Bool
  | .value .none => true
  | _ => false

/-- Takes the rules out of options that hold some. -/
def splitRules (base : OptionsBase) (optionRules : Option Source) : OptionsBase × Option Source :=
  match base with
  | .entries es => match Assoc.lookup (.text "rules") es with
    | some v => (.entries (Assoc.erase (.text "rules") es),
        some (optionRules.getD (Source.ofSupplied v)))
    | none => (base, optionRules)
  | .value (.map es) => match Assoc.lookup (.text "rules") es with
    | some v => (.value (.map (Assoc.erase (.text "rules") es)),
        some (optionRules.getD (Source.ofValue v)))
    | none => (base, optionRules)
  | _ => (base, optionRules)

/-- The source that counts: rules are given as an argument or as an option, but not as both. -/
def chooseRules (rules : Source) (optionRules : Option Source) : Except Error Source :=
  match optionRules with
  | none => .ok rules
  | some s =>
    if isMissing rules then .ok s
    else if isMissing s then .ok rules
    else misconfigured .rulesTwice

/-- Builds a session. Rules may also be an entry of the options. Mirrors `Session.new`. -/
def new (files : Files) (rules : Source) (base : OptionsBase) (optionRules : Option Source)
    (overrides : OptionEntries) : Except Error Session := do
  Fault.lift (Options.checkReserved reservedNames overrides)
  let (base, optionRules) := splitRules base optionRules
  let source ← chooseRules rules optionRules
  let options ← Options.build base overrides
  ofRules (← source.compileAll files) options

end Session

end RuleEngine
