import RuleEngine.Session.Basic
import RuleEngine.Traced

/-!
# Changing a session's facts

Each change of the working memory is counted and announced only if something changed; the agenda is
built anew in any case. Effects are interpreted one by one: those on memory as changes, the others
not at all.
-/

namespace RuleEngine

/-- A change of the facts. -/
inductive Change where
  | assert (fact : Value)
  | retract (target : Value)
  | upsert (fact : Value)
  deriving Repr

namespace Change

/-- The memory after a change, with the key it changed something under. -/
def run (m : Memory) : Change → Except Fault (Memory × Option FactKey)
  | assert fact => m.assert fact
  | retract target => m.retract target
  | upsert fact => m.upsert fact

def eventName : Change → String
  | assert _ => "memory.assert"
  | retract _ => "memory.retract"
  | upsert _ => "memory.upsert"

/-- The counters after a change that changed something. -/
def count (c : Counters) : Change → Counters
  | assert _ => { c with asserted := c.asserted + 1 }
  | retract _ => { c with retracted := c.retracted + 1 }
  | upsert _ => { c with upserted := c.upserted + 1 }

/-- What an upsert announces besides the key: whether the identity was new. -/
def metadata (m : Memory) : Change → Except Fault (List (Value × Value))
  | upsert fact => do
    return [(.text (if ← m.contains fact then "updated" else "inserted"), .bool true)]
  | _ => .ok []

/-- The event of a change that changed something under a key. -/
def event (c : Change) (metadata : List (Value × Value)) (k : FactKey) : Event :=
  ⟨c.eventName, [], metadata ++ [(.text "key", .text k.display)]⟩

/-- The change an effect asks for. -/
def ofEffect? : Effect → Option Change
  | .assert fact => some (.assert fact)
  | .retract target => some (.retract target)
  | .upsert fact => some (.upsert fact)
  | _ => none

end Change

namespace Session

/-- The activations of one rule. Fails at an attempt that cannot be logged, and at a match that can
have no token. Mirrors `activations_for`. -/
def ruleActivations (facts : List Value) (r : Rule) : Traced (List Activation) := do
  let bs ← Pattern.matchAll r.patterns facts
  Traced.ofExcept (Fault.lift (bs.mapM fun b => Activation.of r.name b r.salience r.once))

def activations (s : Session) : Traced (List (List Activation)) :=
  s.rules.mapM (ruleActivations s.memory.facts)

/-- Builds the agenda anew. Mirrors `Session._rebuild`. -/
def rebuild (s : Session) : Traced Session := do
  let found ← s.activations
  let agenda := Agenda.choose found s.tokens s.onceTokens s.options.recency
  Traced.give [.logged .debug "agenda_built"]
  Observer.notify s.options.observer (Agenda.builtEvent s.memory.facts agenda.length)
  return { s with
    pending := agenda
    counters := { s.counters with agendaBuilds := s.counters.agendaBuilds + 1 } }

/-- The counters and notices of a change that changed something under a key. -/
def announce (s : Session) (c : Change) (metadata : List (Value × Value)) (k : FactKey) :
    Traced Counters := do
  Traced.ofExcept (Fault.lift k.value.checkText)
  Observer.notify s.options.observer (c.event metadata k)
  return c.count s.counters

/-- Changes the facts and builds the agenda anew. Mirrors `Session._mutate`. -/
def change (s : Session) (c : Change) : Traced Session := do
  let metadata ← Traced.ofExcept (Fault.lift (c.metadata s.memory))
  let (memory, changed) ← Traced.ofExcept (Fault.lift (c.run s.memory))
  let counters ← match changed with
    | some k => s.announce c metadata k
    | none => pure s.counters
  rebuild { s with memory := memory, counters := counters }

/-- Adds a fact unless its identity is known. -/
def assertFact (s : Session) (fact : Value) : Traced Session := s.change (.assert fact)

/-- Removes a fact by key, by kind and id, or by a fact of its identity. -/
def retract (s : Session) (target : Value) : Traced Session := s.change (.retract target)

/-- Adds a fact or replaces the unequal one of its identity. -/
def upsert (s : Session) (fact : Value) : Traced Session := s.change (.upsert fact)

/-- The fact under the key of a fact. -/
def fact (s : Session) (v : Value) : Except Fault (Option Value) := do s.memory.get (← Fact.key v)

/-- The effects of an effect list; other members are dropped with a warning that shows them. Mirrors
`_known_effects`. -/
def knownEffects : List Item → Traced (List Effect)
  | [] => pure []
  | .effect e :: is => do
    let es ← knownEffects is
    return e :: es
  | .other v :: is => do
    Traced.ofExcept (Fault.lift v.checkShown)
    Traced.give [.logged .warning "effect_dropped"]
    knownEffects is

/-- Makes the changes effects ask for, in order. -/
def changeAll (s : Session) : List Effect → Traced Session
  | [] => pure s
  | e :: es => do
    let s ← match Change.ofEffect? e with
      | some c => s.change c
      | none => pure s
    changeAll s es

/-- Interprets effects, and counts them. Mirrors `Session._apply_effects`. -/
def interpret (s : Session) (effects : List Effect) : Traced Session := do
  let s ← s.changeAll effects
  if effects.isEmpty then return s
  else return { s with
    counters := { s.counters with effects := s.counters.effects + effects.length } }

/-- Interprets an effect list against the session and gives the effects applied. Mirrors
`Session.apply`. -/
def apply (s : Session) (items : List Item) : Traced (Session × List Effect) := do
  let effects ← knownEffects items
  let s ← s.interpret effects
  return (s, effects)

end Session

end RuleEngine
