import RuleEngine.Fault
import RuleEngine.Flaw

/-!
# Errors

Why the engine refuses: a malformed definition, a configuration it cannot build a session from, an
agenda that names a rule the session does not hold, a failed action, or a fault that passes through.
`Error.message` is the wording of each.
-/

namespace RuleEngine

/-- A malformed rule, pattern, condition or rule document. Mirrors `RuleDefinitionError`. -/
inductive DefinitionError where
  | ruleName
  | noPatterns (rule : Name)
  | patternType (rule : Name)
  | actionNotCallable (rule : Name)
  | salienceType (rule : Name)
  | mode (rule : Name) (given : Value)
  | onceWithPerFact (rule : Name)
  | matcherNotCallable
  | guardNotCallable
  | kind (given : Value)
  | bindName
  | fieldName
  | variableName
  | conditionShape (given : Value)
  | conditionOperator (given : Value)
  | conditionWithoutVariable (operator : String)
  | noConditions
  | declaredName
  | declaredPatterns
  | notDeclared (shown : String)
  | invalidDocument (details : List Detail)
  | documentType (cls : String)
  | unreadable (path : String)
  | notJson (path : String)
  | unboundInConditions (rule : String) (position : Nat) (names : List String)
  | unboundInEffects (rule : String) (names : List String)
  deriving Repr

/-- Rule sources or options that no session can be built from. -/
inductive ConfigurationError where
  | rulesTwice
  | duplicateRule (name : Name)
  | noRules (source : String)
  | unsupportedSource (source : String)
  | optionsType (cls : String)
  | invalidOptions (details : List Detail)
  | environmentFlag (setting text : String)
  | environmentInteger (setting text : String)
  deriving Repr

/-- Why an operation of the engine fails. -/
inductive Error where
  | definition (e : DefinitionError)
  | configuration (e : ConfigurationError)
  | unknownRule (name : Name)
  | action (rule : Name) (cause : Fault)
  | fault (f : Fault)
  deriving Repr

def Name.display (n : Name) : String := n.value.display

def conditionOperators : List String :=
  ["eq", "ne", "gt", "ge", "lt", "le", "in", "not_in", "contains"]

def inspectNames (names : List String) : String := (Value.list (names.map .text)).inspect

def DefinitionError.message : DefinitionError → String
  | ruleName => "Rule name must be a non-empty string."
  | noPatterns r => s!"Rule '{r.display}' must declare at least one pattern."
  | patternType r => s!"Rule '{r.display}' patterns must be Pattern instances."
  | actionNotCallable r => s!"Rule '{r.display}' action must be callable."
  | salienceType r => s!"Rule '{r.display}' salience must be an int."
  | mode r g => s!"Rule '{r.display}' mode must be 'once' or 'per_fact', got {g.inspect}."
  | onceWithPerFact r => s!"Rule '{r.display}' sets once=True but mode='per_fact'."
  | matcherNotCallable => "Pattern matcher must be callable."
  | guardNotCallable => "Pattern guard must be callable or None."
  | kind g => s!"pattern kind must be a class, kind string or None, got {g.inspect}."
  | bindName => "pattern bind must be a non-empty string."
  | fieldName => "pattern field names must be non-empty strings."
  | variableName => "Var name must be a non-empty string."
  | conditionShape g => s!"condition must be [op, lhs, rhs], got {g.inspect}."
  | conditionOperator g =>
    let expected := ", ".intercalate conditionOperators
    s!"unsupported condition op: {g.inspect} (expected one of {expected})."
  | conditionWithoutVariable op => s!"{op} condition requires at least one variable side."
  | noConditions => "conditions() requires at least one atom."
  | declaredName => "rule name must be a non-empty string."
  | declaredPatterns => "rule when= must contain Pattern objects; use pattern()."
  | notDeclared shown => s!"{shown} is not decorated with @rule."
  | invalidDocument _ => "Invalid rule document"
  | documentType c => s!"Unsupported rule document type: {c}"
  | unreadable p => s!"Cannot read rule document {p}"
  | notJson p => s!"Rule document {p} is not valid JSON"
  | unboundInConditions r i ns =>
    s!"Rule '{r}' pattern {i} conditions use unbound variables: {inspectNames ns}"
  | unboundInEffects r ns => s!"Rule '{r}' effects use unbound variables: {inspectNames ns}"

def ConfigurationError.message : ConfigurationError → String
  | rulesTwice => "rules given both as an argument and as an option."
  | duplicateRule n => s!"Duplicate rule name: {n.display}"
  | noRules s => s!"{s} does not define any rules."
  | unsupportedSource s => s!"Unsupported rule source: {s}"
  | optionsType c => s!"options must be SessionOptions or a mapping, got {c}."
  | invalidOptions _ => "Invalid session options"
  | environmentFlag v t => s!"{v} must be a boolean flag, got {Text.quote t}."
  | environmentInteger v t => s!"{v} must be an integer, got {Text.quote t}."

def Error.message : Error → String
  | definition e => e.message
  | configuration e => e.message
  | unknownRule n => s!"Agenda references unknown rule '{n.display}'."
  | action r f => s!"Action for rule '{r.display}' failed: {f.inspect}"
  | fault f => f.message

def Error.details : Error → List Detail
  | definition (.invalidDocument ds) => ds
  | configuration (.invalidOptions ds) => ds
  | _ => []

/-- A computation on values, seen as one of the engine. -/
def Fault.lift {α : Type} : Except Fault α → Except Error α
  | .ok a => .ok a
  | .error f => .error (.fault f)

def malformed {α : Type} (e : DefinitionError) : Except Error α := .error (.definition e)

def misconfigured {α : Type} (e : ConfigurationError) : Except Error α := .error (.configuration e)

end RuleEngine
