import RuleEngine.Rule
import RuleEngine.StableSort

/-!
# Agenda

The agenda holds the activations of all rules over the current facts, less those that have fired
and those of a spent once rule, by falling salience and then by name. Activations of one rule stay
in the order of their matches.
-/

namespace RuleEngine.Agenda

/-- Whether an activation may still fire. -/
def isOpen (tokens onceTokens : List Token) (a : Activation) : Bool :=
  !tokens.any (· == a.token) && !(a.once && onceTokens.any fun t => t.rule.text == a.rule.text)

/-- The activations that may still fire. Mirrors `filter_fired`. -/
def filterFired (tokens onceTokens : List Token) (as : List Activation) : List Activation :=
  as.filter (isOpen tokens onceTokens)

/-- The activations in firing order. The recency has no influence. Mirrors `resolve_conflicts`. -/
def order (_recency : Recency) (as : List Activation) : List Activation :=
  StableSort.sort Activation.notAfter as

def found (rules : List Rule) (facts : List Value) : List (List Activation) :=
  rules.map fun r => r.activations facts

/-- The agenda chosen from the activations found. -/
def choose (found : List (List Activation)) (tokens onceTokens : List Token) (recency : Recency) :
    List Activation :=
  order recency (filterFired tokens onceTokens found.flatten)

/-- The agenda of rules over a memory. Mirrors `build_agenda`. -/
def build (rules : List Rule) (memory : Memory) (tokens onceTokens : List Token)
    (recency : Recency) : List Activation :=
  choose (found rules memory.facts) tokens onceTokens recency

/-- The event of an agenda of `count` activations that has been built over these facts. -/
def builtEvent (facts : List Value) (count : Nat) : Event :=
  ⟨"agenda.build", [(.text "duration_ms", .none)],
    [(.text "count", .int count), (.text "facts", .int facts.length)]⟩

end RuleEngine.Agenda
