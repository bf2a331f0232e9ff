import RuleEngine.Activation
import RuleEngine.Effect
import RuleEngine.Memory
import RuleEngine.Options.Basic

/-!
# The view of a session

Everything an action can see of the session it runs in: options, facts, agenda, tokens, counters and
the effects of the last step. Only the rules are missing.
-/

namespace RuleEngine

/-- How often each thing has happened in a session's history. -/
structure Counters where
  asserted : Nat
  retracted : Nat
  upserted : Nat
  agendaBuilds : Nat
  fired : Nat
  effects : Nat
  deriving DecidableEq, Repr, Inhabited

def Counters.zero : Counters := ⟨0, 0, 0, 0, 0, 0⟩

/-- A session less its rules. -/
structure View where
  options : Options
  memory : Memory
  pending : List Activation
  tokens : List Token
  onceTokens : List Token
  counters : Counters
  lastEffects : List Effect

namespace View

def initial (options : Options) : View := ⟨options, .empty, [], [], [], .zero, []⟩

def facts (v : View) : List Value := v.memory.facts

def agenda (v : View) : List Activation := v.pending

end View

end RuleEngine
