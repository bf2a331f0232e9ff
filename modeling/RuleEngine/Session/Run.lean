import RuleEngine.Session.Change

/-!
# Running a session

A step fires the first pending activation: its rule's action answers with effects, the activation's
token is remembered, the effects are interpreted unless the session is pure, and the agenda is built
anew. A run steps until nothing is pending or its budget is used up.
-/

namespace RuleEngine

namespace Session

/-- What an action sees when the session fires with this binding. -/
def context (s : Session) (b : Binding) : ActionContext := ⟨s.toView, b, []⟩

/-- Remembers that a rule has fired under a token. -/
def remember (s : Session) (r : Rule) (t : Token) : Session :=
  { s with
    tokens := t.add s.tokens
    onceTokens := if r.once then t.add s.onceTokens else s.onceTokens
    counters := { s.counters with fired := s.counters.fired + 1 } }

/-- The event of a firing that answered these effects. -/
def firedEvent (s : Session) (r : Rule) (effects : List Effect) : Event :=
  ⟨"activation.fire", [(.text "duration_ms", .none)],
    [(.text "rule", r.name.value), (.text "effects", .int effects.length),
      (.text "pure", .bool s.options.pure)]⟩

/-- Fires an activation that is no longer pending. Mirrors `Session._fire`. -/
def fire (s : Session) (a : Activation) : Traced (Session × List Effect) := do
  let some r := s.rule? a.rule | Traced.ofExcept (.error (.unknownRule a.rule))
  let items ← Traced.ofExcept (r.run (s.context a.binding))
  let effects ← knownEffects items
  let s := s.remember r a.token
  let s ← if s.options.pure then pure s else s.interpret effects
  Traced.give [.logged .debug "activation_fired"]
  Observer.notify s.options.observer (s.firedEvent r effects)
  return (s, effects)

/-- Fires the first pending activation, if there is one. Mirrors `Session.step`. -/
def step (s : Session) : Traced (Session × Option Activation) :=
  match s.pending with
  | [] => pure (s, none)
  | a :: rest => do
    let (s, effects) ← { s with pending := rest }.fire a
    let s ← s.rebuild
    return ({ s with lastEffects := effects }, some a)

/-- Steps at most `budget` times, until nothing is pending. -/
def runSteps : Nat → Session → Traced (Session × List Activation)
  | 0, s => pure (s, [])
  | budget + 1, s => do
    match ← s.step with
    | (s, none) => return (s, [])
    | (s, some a) => do
      let (s, fired) ← runSteps budget s
      return (s, a :: fired)

/-- The number of steps a given budget allows: none for no bound. A fraction counts as a whole
step. -/
def budget? (v : Value) : Except Fault (Option Nat) :=
  match v.number? with
  | none => .error (.notNumber v.className)
  | some n =>
    if n.lt (.whole 0) then .error .negativeBudget
    else match n, n.ceiling? with
      | .nan, _ => .ok (some 0)
      | _, steps => .ok (steps.map Int.toNat)

/-- Steps until nothing is pending or the budget is used up: the one given, or else that of the
options. Without any the run is bounded by `fuel` alone. Mirrors `Session.run`. -/
def run (fuel : Nat) (s : Session) (given : Value) : Traced (Session × List Activation) := do
  let budget ← match given with
    | .none => pure s.options.maxSteps
    | v => Traced.ofExcept (Fault.lift (budget? v))
  runSteps (budget.getD fuel) s

end Session

end RuleEngine
