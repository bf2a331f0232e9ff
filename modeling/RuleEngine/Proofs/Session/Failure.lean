import RuleEngine.Proofs.Memory.Failure
import RuleEngine.Proofs.Session.Operation

/-!
# How operations fail

A rebuild fails in one way only (`rebuild_eq_error`), as an observer does, and a change of the facts
and the interpretation of effects only on legitimate faults, those of reading, hashing and writing
values. What holds of these holds of every error they end in (`Traced.EndsIn`). A step adds two
further sources: the rule it looks up and the action it calls. If the rule is found, a step fails as
its action does or on such a fault (`step_endsIn`).

* `step_failsByFault`: if the action returns, the step does not end in the error of an action.
-/

namespace RuleEngine

namespace Traced

variable {α β : Type} {P : Error → Prop}

/-- Where the computation fails, its error is one of these. -/
def EndsIn (P : Error → Prop) (x : Traced α) : Prop := FailsAs P x.value

/-- Where the computation fails, it is on a fault of an operation on values. -/
abbrev FailsByFault (x : Traced α) : Prop := EndsIn (fun e => ∃ f, e = .fault f) x

namespace EndsIn

theorem of_ok {x : Traced α} {a : α} (h : x.value = .ok a) : EndsIn P x := by
  rw [EndsIn, h]
  exact .ok a

theorem pure (a : α) : EndsIn P (pure a) := .of_ok (pure_value a)

theorem give (ns : List Notice) : EndsIn P (give ns) := .of_ok rfl

theorem lift {x : Except Fault α} (hx : FailsAs (fun f => P (.fault f)) x) :
    EndsIn P (ofExcept (Fault.lift x)) := by
  intro e h
  obtain ⟨f, hf, rfl⟩ := lift_eq_error.mp h
  exact hx f hf

theorem notify (hP : P (.fault .unwritableInteger)) (observer : Option Observer) (event : Event) :
    EndsIn P (Observer.notify observer event) := by
  intro e h
  rw [Observer.notify_eq_error h]
  exact hP

theorem bind {x : Traced α} {f : α → Traced β} (hx : EndsIn P x)
    (hf : ∀ a, x.value = .ok a → EndsIn P (f a)) : EndsIn P (x >>= f) := by
  rw [EndsIn, bind_value]
  exact FailsAs.bind hx hf

end EndsIn

end Traced

namespace Session

open Traced (EndsIn FailsByFault)

variable {s : Session}

/-! ## A rebuild that fails -/

theorem ruleActivations_eq_error {facts : List Value} {r : Rule} {e : Error}
    (h : (ruleActivations facts r).value = .error e) : e = .fault .unwritableInteger := by
  simp only [ruleActivations, Traced.bind_value_eq_error, Traced.ofExcept_value,
    lift_eq_error] at h
  rcases h with h | ⟨bs, -, f, h, rfl⟩
  · exact Pattern.matchAll_eq_error h
  · obtain ⟨_, b, _, -, -, hb⟩ := mapM_eq_error.mp h
    rw [(Activation.of_eq_error.mp hb).2]

theorem rebuild_eq_error {e : Error} (h : s.rebuild.value = .error e) :
    e = .fault .unwritableInteger := by
  simp only [rebuild, Traced.bind_value_eq_error, Traced.give_bind_value] at h
  rcases h with h | ⟨_, -, h | ⟨_, -, ⟨⟩⟩⟩
  · obtain ⟨r, -, hr⟩ := Traced.mapM_value_eq_error h
    exact ruleActivations_eq_error hr
  · exact Observer.notify_eq_error h

/-- A rebuild that fails, be it at a rule or at the observer, fails in one way. -/
theorem rebuild_fails (h : ¬ s.IsBuildable) :
    s.rebuild.value = .error (.fault .unwritableInteger) := by
  cases hv : s.rebuild.value with
  | ok t => exact absurd (rebuild_eq_ok.mp hv).1 h
  | error e => rw [rebuild_eq_error hv]

/-! ## Operations that fail -/

section

variable {P : Error → Prop} (hP : ∀ f : Fault, f.Legitimate → P (.fault f))

include hP

theorem rebuild_endsIn (s : Session) : EndsIn P s.rebuild := by
  intro e h
  rw [rebuild_eq_error h]
  exact hP _ .unwritableInteger

theorem announce_endsIn (s : Session) (c : Change) (md : List (Value × Value)) (k : FactKey) :
    EndsIn P (s.announce c md k) :=
  .bind (.lift (checkLength_failsAs (hP _ .unwritableInteger) _)) fun _ _ =>
    .bind (.notify (hP _ .unwritableInteger) _ _) fun _ _ => .pure _

theorem change_endsIn (s : Session) (c : Change) : EndsIn P (s.change c) := by
  unfold change
  refine .bind (.lift ((c.metadata_failsLegitimately s.memory).mono hP)) fun md _ =>
    .bind (.lift ((s.memory.run_failsLegitimately c).mono hP)) fun r _ => ?_
  obtain ⟨m, k⟩ := r
  cases k with
  | none => exact .bind (.pure _) fun _ _ => rebuild_endsIn hP _
  | some k => exact .bind (announce_endsIn hP s c md k) fun _ _ => rebuild_endsIn hP _

theorem changeAll_endsIn (s : Session) (es : List Effect) : EndsIn P (s.changeAll es) := by
  induction es generalizing s with
  | nil => exact .pure s
  | cons e es ih =>
    rw [changeAll]
    cases Change.ofEffect? e with
    | none => exact .bind (.pure s) fun t _ => ih t
    | some c => exact .bind (change_endsIn hP s c) fun t _ => ih t

theorem interpret_endsIn (s : Session) (es : List Effect) : EndsIn P (s.interpret es) := by
  unfold interpret
  refine .bind (changeAll_endsIn hP s es) fun t _ => ?_
  split <;> exact .pure _

theorem knownEffects_endsIn (is : List Item) : EndsIn P (knownEffects is) := by
  induction is with
  | nil => exact .pure _
  | cons i is ih =>
    cases i with
    | effect e => exact .bind ih fun _ _ => .pure _
    | other v =>
      exact .bind (.lift (checkLength_failsAs (hP _ .unwritableInteger) _)) fun _ _ =>
        .bind (.give _) fun _ _ => ih

/-- Where the rule is found, firing fails as the action does, or on a legitimate fault of what comes
after it. -/
theorem fire_endsIn {a : Activation} {r : Rule} (hr : s.rule? a.rule = some r)
    (hrun : FailsAs P (r.run (s.context a.binding))) : EndsIn P (s.fire a) := by
  unfold fire
  rw [hr]
  refine .bind hrun fun is _ => .bind (knownEffects_endsIn hP is) fun es _ => ?_
  have hsay (t : Session) : EndsIn P (do
      Traced.give [.logged .debug "activation_fired"]
      Observer.notify t.options.observer (t.firedEvent r es)
      return (t, es)) :=
    .bind (.give _) fun _ _ => .bind (.notify (hP _ .unwritableInteger) _ _) fun _ _ => .pure _
  dsimp only
  split
  · exact .bind (.pure _) fun t _ => hsay t
  · exact .bind (interpret_endsIn hP _ es) fun t _ => hsay t

/-- Where the rule of the first pending activation is found, a step fails as the action does, or on
a legitimate fault of what comes after it. -/
theorem step_endsIn {a : Activation} {rest : List Activation} {r : Rule}
    (hp : s.pending = a :: rest) (hr : s.rule? a.rule = some r)
    (hrun : FailsAs P (r.run (context { s with pending := rest } a.binding))) :
    EndsIn P s.step := by
  unfold step
  rw [hp]
  refine .bind (fire_endsIn hP hr hrun) fun t _ => ?_
  exact .bind (rebuild_endsIn hP _) fun _ _ => .pure _

end

/-- Where the action of the first pending activation returns, so does the step, or it fails on a
fault of what comes after the action. -/
theorem step_failsByFault {a : Activation} {rest : List Activation} {r : Rule} {items : List Item}
    (hp : s.pending = a :: rest) (hr : s.rule? a.rule = some r)
    (hrun : r.run (context { s with pending := rest } a.binding) = .ok items) :
    FailsByFault s.step := by
  refine step_endsIn (fun f _ => ⟨f, rfl⟩) hp hr fun e he => ?_
  rw [hrun] at he
  cases he

end Session

end RuleEngine
