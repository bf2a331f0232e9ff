import RuleEngine.Observer
import RuleEngine.Proofs.Failure
import RuleEngine.Proofs.Value.Overlong

/-!
# What observers can be told

A notification fails in one way: the observer has failed on the event, and its failure has a number
that is too long for the log. Observers of other kinds cannot disturb an operation, and neither can
none at all.

* `CanTell`: the observer can be told of the event. `notify_eq_ok`: so the notification returns.
* `FailsWritably`: the observer can be told of every event.
-/

namespace RuleEngine.Observer

variable {observer : Option Observer} {event : Event}

/-- The observer, if there is one, takes the event, or its failure can be logged. -/
def CanTell (observer : Option Observer) (event : Event) : Prop :=
  ∀ take ∈ observer, FailsAs (fun f : Fault => f.isOverlong = false) (take event)

/-- Every failure of the observer can be logged. -/
def FailsWritably (observer : Option Observer) : Prop := ∀ event, CanTell observer event

theorem report_eq_ok {x : Except Fault Event} {u : Unit} :
    (report x).value = .ok u ↔ FailsAs (fun f : Fault => f.isOverlong = false) x := by
  cases x with
  | ok e => exact iff_of_true rfl (.ok e)
  | error f =>
    simp only [report, Traced.bind_value_eq_ok, Traced.ofExcept_value, lift_eq_ok,
      checkLength_eq_ok]
    exact ⟨fun ⟨_, hf, _⟩ => .error hf, fun h => ⟨(), h f rfl, rfl⟩⟩

theorem notify_eq_ok {u : Unit} :
    (notify observer event).value = .ok u ↔ CanTell observer event := by
  cases observer with
  | none => exact iff_of_true rfl nofun
  | some take =>
    rw [notify, report_eq_ok, CanTell]
    constructor
    · rintro h _ ⟨⟩ f hf
      exact h f (map_eq_error.mpr hf)
    · exact fun h => (h take rfl).map _

theorem report_eq_error {x : Except Fault Event} {e : Error} (h : (report x).value = .error e) :
    e = .fault .unwritableInteger := by
  cases x with
  | ok event => cases h
  | error f =>
    rcases Traced.bind_value_eq_error.mp h with h | ⟨_, -, ⟨⟩⟩
    obtain ⟨g, hg, rfl⟩ := lift_eq_error.mp h
    rw [(checkLength_eq_error.mp hg).2]

/-- An observer that cannot be told of an event makes the operation fail. -/
theorem notify_eq_error {e : Error} (h : (notify observer event).value = .error e) :
    e = .fault .unwritableInteger := by
  cases observer with
  | none => cases h
  | some take => exact report_eq_error h

theorem notify_fails (h : ¬ CanTell observer event) :
    (notify observer event).value = .error (.fault .unwritableInteger) := by
  cases hv : (notify observer event).value with
  | ok u => exact absurd (notify_eq_ok.mp hv) h
  | error e => rw [notify_eq_error hv]

/-- Nobody can be told of everything. -/
theorem failsWritably_none : FailsWritably none := fun _ => nofun

end RuleEngine.Observer
