import RuleEngine.Proofs.Traced
import RuleEngine.Recorder

/-!
# The events of a computation

What an observer sees of a computation are the events among its notices. `Traced.Emits` says what a
computation answers together with the events it delivers on the way, and `emits_bind` takes a
sequence apart: its events are those of its first part followed by those of its second. Computations
that only log are silent, and play no part in this.

A recorder without a limit holds the events of all notices it was given, in order
(`Recorder.take_events`).
-/

namespace RuleEngine

def Notice.event? : Notice → Option Event
  | .delivered e => some e
  | .logged .. => none

namespace Traced

variable {α β : Type} {x : Traced α} {f : α → Traced β} {a : α} {b : β} {es : List Event}

/-- The events a computation delivers, oldest first. -/
def events (x : Traced α) : List Event := x.notices.filterMap Notice.event?

/-- The computation answers, and delivers these events on the way. -/
def Emits (x : Traced α) (es : List Event) (a : α) : Prop := x.value = .ok a ∧ x.events = es

theorem Emits.of_value (h : x.value = .ok a) : x.Emits x.events a := ⟨h, rfl⟩

theorem emits_pure {a' : α} : (pure a : Traced α).Emits es a' ↔ a' = a ∧ es = [] := by
  have hevents : (pure a : Traced α).events = [] := rfl
  rw [Emits, pure_value, hevents, Except.ok.injEq, eq_comm, eq_comm (a := ([] : List Event))]

theorem emits_ofExcept {y : Except Error α} : (ofExcept y).Emits es a ↔ y = .ok a ∧ es = [] := by
  have hevents : (ofExcept y).events = [] := rfl
  rw [Emits, ofExcept_value, hevents, eq_comm (a := ([] : List Event))]

theorem emits_give {ns : List Notice} {u : Unit} :
    (give ns).Emits es u ↔ es = ns.filterMap Notice.event? := by
  have hvalue : (give ns).value = .ok u := rfl
  have hevents : (give ns).events = ns.filterMap Notice.event? := rfl
  rw [Emits, hevents, eq_comm (a := es)]
  exact and_iff_right hvalue

theorem events_bind (h : x.value = .ok a) : (x >>= f).events = x.events ++ (f a).events := by
  have hnotices : (x >>= f).notices = x.notices ++ (f a).notices := by
    change (andThen x f).notices = _
    rw [andThen, h]
  rw [events, hnotices, List.filterMap_append]
  rfl

/-- A sequence delivers the events of its two parts, one after the other. -/
theorem emits_bind : (x >>= f).Emits es b ↔
    ∃ a es₁ es₂, x.Emits es₁ a ∧ (f a).Emits es₂ b ∧ es = es₁ ++ es₂ := by
  constructor
  · intro ⟨hb, hes⟩
    obtain ⟨a, ha, hf⟩ := bind_value_eq_ok.mp hb
    rw [events_bind ha] at hes
    exact ⟨a, x.events, (f a).events, ⟨ha, rfl⟩, ⟨hf, rfl⟩, hes.symm⟩
  · rintro ⟨a, _, _, ⟨ha, rfl⟩, ⟨hf, rfl⟩, rfl⟩
    exact ⟨bind_value_eq_ok.mpr ⟨a, ha, hf⟩, events_bind ha⟩

/-! ## Computations that deliver nothing -/

/-- Whatever it answers, the computation delivers no event. -/
def IsSilent (x : Traced α) : Prop := x.events = []

theorem IsSilent.emits_iff (h : x.IsSilent) : x.Emits es a ↔ x.value = .ok a ∧ es = [] := by
  rw [Emits, show x.events = [] from h, eq_comm (a := es)]

theorem IsSilent.pure (a : α) : IsSilent (pure a) := rfl

theorem IsSilent.ofExcept (y : Except Error α) : IsSilent (ofExcept y) := rfl

theorem IsSilent.bind (hx : x.IsSilent) (hf : ∀ a, (f a).IsSilent) : (x >>= f).IsSilent := by
  cases hv : x.value with
  | ok a => rw [IsSilent, events_bind hv, hx, hf a, List.append_nil]
  | error e =>
    have hnotices : (x >>= f).notices = x.notices := by
      change (andThen x f).notices = _
      rw [andThen, hv]
    rw [IsSilent, events, hnotices]
    exact hx

theorem IsSilent.mapM {g : α → Traced β} (hg : ∀ a, (g a).IsSilent) (xs : List α) :
    (xs.mapM g).IsSilent := by
  induction xs with
  | nil => exact .pure _
  | cons x xs ih =>
    rw [List.mapM_cons]
    exact (hg x).bind fun _ => ih.bind fun _ => .pure _

end Traced

/-! ## What a recorder holds -/

namespace Recorder

/-- A recorder without a limit holds the events of all notices it was given. -/
theorem take_events {r : Recorder} (h : r.limit = none) (ns : List Notice) :
    (r.take ns).events = r.events ++ ns.filterMap Notice.event? := by
  induction ns generalizing r with
  | nil => exact (List.append_nil _).symm
  | cons n ns ih =>
    cases n with
    | logged => exact ih h
    | delivered e =>
      have hlimit : (r.record e).limit = none := by rw [record, h]
      have hevents : (r.record e).events = r.events ++ [e] := by rw [record, h]
      change ((r.record e).take ns).events = r.events ++ e :: ns.filterMap Notice.event?
      rw [ih hlimit, hevents, List.append_assoc, List.singleton_append]

/-- A recorder made without a limit counts the events of all notices it was given. -/
theorem count_take {r : Recorder} (hr : make .none = .ok r) (ns : List Notice) (name : String) :
    (r.take ns).count (some name) =
      ((ns.filterMap Notice.event?).filter fun e => e.name == name).length := by
  obtain rfl : ⟨none, []⟩ = r := Except.ok.inj hr
  rw [count, select, take_events rfl, List.nil_append]

end Recorder

end RuleEngine
