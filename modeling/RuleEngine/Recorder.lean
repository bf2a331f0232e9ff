import RuleEngine.Observer

/-!
# Event recorder

An observer that keeps events, oldest first. With a limit it keeps the newest ones.
-/

namespace RuleEngine

/-- Recorded events under an optional limit. Mirrors `EventRecorder`. -/
structure Recorder where
  limit : Option Nat
  events : List Event
  deriving Repr

namespace Recorder

/-- The recorder without events. A limit must be a number above zero; a fraction counts as the whole
number below it. -/
def make (limit : Value) : Except Fault Recorder :=
  match limit, limit.number? with
  | .none, _ => .ok ⟨none, []⟩
  | _, none => .error (.notNumber limit.className)
  | _, some n =>
    if n.le (.whole 0) then .error .nonPositiveLimit else .ok ⟨n.floor?.map Int.toNat, []⟩

/-- Keeps one more event; the oldest goes when the limit is passed. -/
def record (r : Recorder) (e : Event) : Recorder :=
  let events := r.events ++ [e]
  match r.limit with
  | none => { r with events := events }
  | some limit => { r with events := if limit < events.length then events.drop 1 else events }

/-- Forgets all events. Mirrors `EventRecorder.clear`. -/
def clear (r : Recorder) : Recorder := { r with events := [] }

/-- The events with a name, or all. Mirrors `EventRecorder.events`. -/
def select (r : Recorder) (name : Option String) : List Event :=
  match name with
  | none => r.events
  | some n => r.events.filter fun e => e.name == n

/-- The number of events with a name, or of all. Mirrors `EventRecorder.count`. -/
def count (r : Recorder) (name : Option String) : Nat := (r.select name).length

/-- The recorder as an observer takes every event. -/
def observer : Observer := fun _ => .ok ()

/-- Keeps the events that were delivered. -/
def take (r : Recorder) (ns : List Notice) : Recorder :=
  ns.foldl (fun r n => match n with
    | .delivered e => r.record e
    | .logged .. => r) r

end Recorder

end RuleEngine
