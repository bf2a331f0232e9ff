import RuleEngine.Traced
import RuleEngine.Value.Container
import RuleEngine.Value.Overlong

/-!
# Observers

An observer takes events. One that fails is reported in the log and does not disturb the operation
that caused the event, unless the failure cannot be written: then the operation fails as well.
-/

namespace RuleEngine

/-- A function of the host that takes an event or fails. -/
abbrev Observer := Event → Except Fault Unit

namespace Observer

/-- Reports what came of an event: it was delivered, or something failed and is logged. -/
def report : Except Fault Event → Traced Unit
  | .ok event => Traced.give [.delivered event]
  | .error f => do
    Traced.ofExcept (Fault.lift (checkLength f.isOverlong))
    Traced.give [.logged .warning "observer_failed"]

/-- Delivers an event, if there is an observer. Mirrors `notify`. -/
def notify (observer : Option Observer) (event : Event) : Traced Unit :=
  match observer with
  | none => pure ()
  | some take => report ((take event).map fun _ => event)

/-- The entries of something given as measurements or metadata; nothing counts as none. -/
def entries (v : Value) : Except Fault (List (Value × Value)) :=
  if v.truthy then v.toEntries else .ok []

/-- Delivers an event whose measurements and metadata may be any values. What is no map is treated
like a failure of the observer. -/
def notifyWith (observer : Option Observer) (name : String) (measurements metadata : Value) :
    Traced Unit :=
  match observer with
  | none => pure ()
  | some take => report do
    let event : Event := ⟨name, ← entries measurements, ← entries metadata⟩
    take event
    return event

end Observer

end RuleEngine
