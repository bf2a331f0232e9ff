import RuleEngine.Proofs.Options.Layered
import RuleEngine.Proofs.Session.Announcement
import RuleEngine.Proofs.Session.Firing
import RuleEngine.Proofs.Session.RuleOrder

/-!
# Observers see what happens, and change nothing

A session hands events to its observer and never reads an answer: whether the observer takes the
event or fails shows only in the notices, unless it fails in a way that cannot be logged. So a
session with an observer and the same session without one are run side by side through the same
operations (`perform_agree_observer`), provided that no action looks at the observer; the first may
fail on its own where the observer is `Unheard`. An observer that takes every event sees as many of
each kind as the counter of that kind says, and sees the parts of a firing in a fixed order.

* `performAll`: operations one after another, with all they let the outside know.
* `observation_faithful`: the three statements, over all sequences of operations.
-/

namespace RuleEngine

def View.withObserver (v : View) (o : Option Observer) : View :=
  { v with options := { v.options with observer := o } }

/-- The action does not look at the observer. -/
def Rule.IgnoresObserver (r : Rule) : Prop :=
  ∀ (c : ActionContext) (o : Option Observer),
    r.action { c with view := c.view.withObserver o } = r.action c

namespace Session

open Traced (Agree AgreeUnless)

variable {s t : Session} {o : Option Observer} {as : List Activation}

def withObserver (s : Session) (o : Option Observer) : Session :=
  { s with options := { s.options with observer := o } }

/-! ## Sequences of operations -/

/-- Performs operations one after the other; the answer holds all activations they fired. -/
def performAll (s : Session) : List Operation → Traced (Session × List Activation)
  | [] => pure (s, [])
  | p :: ps => do
    let (s, as) ← s.perform p
    let (s, bs) ← s.performAll ps
    return (s, as ++ bs)

theorem performAll_cons_emits {p : Operation} {ps : List Operation} {es : List Event}
    (h : (s.performAll (p :: ps)).Emits es (t, as)) :
    ∃ u bs cs es₁ es₂, (s.perform p).Emits es₁ (u, bs) ∧ (u.performAll ps).Emits es₂ (t, cs) ∧
      as = bs ++ cs ∧ es = es₁ ++ es₂ := by
  simp only [performAll, Traced.emits_bind, Traced.emits_pure, Prod.mk.injEq, Prod.exists] at h
  obtain ⟨u, bs, es₁, _, hp, ⟨_, cs, es₂, _, hps, ⟨⟨rfl, rfl⟩, rfl⟩, rfl⟩, rfl⟩ := h
  exact ⟨u, bs, cs, es₁, es₂, hp, hps, rfl, by rw [List.append_nil]⟩

theorem performAll_history {ps : List Operation} (h : (s.performAll ps).value = .ok (t, as)) :
    History s as t := by
  induction ps generalizing s as with
  | nil =>
    cases h
    exact .refl t
  | cons p ps ih =>
    obtain ⟨u, bs, cs, _, _, hp, hps, rfl, -⟩ := performAll_cons_emits (.of_value h)
    exact (History.next (.refl s) hp.1).trans (ih hps.1)

/-- Operations count the events they deliver, each with the counter of its kind. -/
theorem performAll_tallied {ps : List Operation} {es : List Event} (hs : s.IsRecorded)
    (h : (s.performAll ps).Emits es (t, as)) : Counters.Tallied s.counters t.counters es := by
  induction ps generalizing s as es with
  | nil =>
    obtain ⟨heq, rfl⟩ := Traced.emits_pure.mp h
    obtain ⟨rfl, rfl⟩ := Prod.mk.inj heq
    exact .refl _
  | cons p ps ih =>
    obtain ⟨u, bs, cs, es₁, es₂, hp, hps, rfl, rfl⟩ := performAll_cons_emits h
    have hrecorded : u.IsRecorded := by
      rw [IsRecorded, (History.next (.refl s) hp.1).keeps.2]
      exact hs
    exact (perform_tallied hs hp).trans (ih hrecorded hps)

/-! ## With and without an observer -/

/-- No action of the session's rules looks at the observer. -/
def IgnoresObserver (s : Session) : Prop := ∀ r ∈ s.rules, r.IgnoresObserver

/-- The failure is that of an observer whose failures cannot all be logged. -/
def Unheard (o : Option Observer) (e : Error) : Prop :=
  e = .fault .unwritableInteger ∧ ¬ Observer.FailsWritably o

/-- The same session twice, the first time with the observer and the second time without one. -/
structure Observed (o : Option Observer) (t s : Session) : Prop where
  same : t = s.withObserver o
  ignores : s.IgnoresObserver
  alone : s.options.observer = none

/-- The same session twice with the same answer. -/
structure ObservedWith {α : Type} (o : Option Observer) (x y : Session × α) : Prop where
  same : x = (y.1.withObserver o, y.2)
  ignores : y.1.IgnoresObserver
  alone : y.1.options.observer = none

section

variable (o : Option Observer)

/-- Nobody hears an event, which cannot fail; the observer hears it, or cannot be told of it. -/
theorem notify_agree_observer (event : Event) :
    AgreeUnless (Unheard o) Eq (Observer.notify o event) (Observer.notify none event) := by
  have hnone : (Observer.notify none event).value = .ok () := rfl
  by_cases ht : Observer.CanTell o event
  · exact .ok (Observer.notify_eq_ok.mpr ht) hnone rfl
  · exact .excused (Observer.notify_fails ht) ⟨rfl, fun ho => ht (ho event)⟩

theorem run_withObserver {r : Rule} (hr : r.IgnoresObserver) (s : Session) (b : Binding) :
    r.run ((s.withObserver o).context b) = r.run (s.context b) := by
  have h : r.action ((s.withObserver o).context b) = r.action (s.context b) := hr (s.context b) o
  rw [Rule.run, h, Rule.run]

variable (hs : s.IgnoresObserver) (hn : s.options.observer = none)

include hs hn

theorem rebuild_agree_observer :
    AgreeUnless (Unheard o) (Observed o) (s.withObserver o).rebuild s.rebuild := by
  unfold rebuild
  rw [hn]
  refine AgreeUnless.bind_left (x := s.activations) fun found => AgreeUnless.bind_left fun _ => ?_
  exact (notify_agree_observer o _).bind fun _ _ _ => .pure ⟨rfl, hs, hn⟩

theorem change_agree_observer (c : Change) :
    AgreeUnless (Unheard o) (Observed o) ((s.withObserver o).change c) (s.change c) := by
  unfold change
  refine AgreeUnless.bind_left fun md => AgreeUnless.bind_left fun r => ?_
  obtain ⟨m, k⟩ := r
  cases k with
  | none => exact rebuild_agree_observer (s := { s with memory := m }) o hs hn
  | some k =>
    have hannounce : AgreeUnless (Unheard o) Eq ((s.withObserver o).announce c md k)
        (s.announce c md k) := by
      unfold announce
      rw [hn]
      refine AgreeUnless.bind_left fun _ => ?_
      exact (notify_agree_observer o _).bind fun _ _ _ => .pure rfl
    refine hannounce.bind ?_
    rintro n _ rfl
    exact rebuild_agree_observer (s := { s with memory := m, counters := n }) o hs hn

theorem changeAll_agree_observer (fs : List Effect) :
    AgreeUnless (Unheard o) (Observed o) ((s.withObserver o).changeAll fs) (s.changeAll fs) := by
  induction fs generalizing s with
  | nil => exact .pure ⟨rfl, hs, hn⟩
  | cons f fs ih =>
    unfold changeAll
    cases Change.ofEffect? f with
    | none => exact ih hs hn
    | some c =>
      refine (change_agree_observer o hs hn c).bind ?_
      rintro _ t ⟨rfl, ht, hn⟩
      exact ih ht hn

theorem interpret_agree_observer (fs : List Effect) :
    AgreeUnless (Unheard o) (Observed o) ((s.withObserver o).interpret fs) (s.interpret fs) := by
  refine (changeAll_agree_observer o hs hn fs).bind ?_
  rintro _ t ⟨rfl, ht, hn⟩
  cases fs with
  | nil => exact .pure ⟨rfl, ht, hn⟩
  | cons f fs => exact .pure ⟨rfl, ht, hn⟩

theorem fire_agree_observer (a : Activation) :
    AgreeUnless (Unheard o) (ObservedWith o) ((s.withObserver o).fire a) (s.fire a) := by
  unfold fire
  rw [show (s.withObserver o).rule? a.rule = s.rule? a.rule from rfl]
  cases hr : s.rule? a.rule with
  | none => exact .error rfl rfl
  | some r =>
    -- the action sees the observer, but does not look at it
    simp only [run_withObserver o (hs r (List.mem_of_find?_eq_some hr))]
    refine AgreeUnless.bind_left fun items => AgreeUnless.bind_left fun fs => ?_
    have hsay (u : Session) (hu : u.IgnoresObserver) (hn : u.options.observer = none) :
        AgreeUnless (Unheard o) (ObservedWith o)
          (do
            Traced.give [.logged .debug "activation_fired"]
            Observer.notify o ((u.withObserver o).firedEvent r fs)
            return (u.withObserver o, fs))
          (do
            Traced.give [.logged .debug "activation_fired"]
            Observer.notify u.options.observer (u.firedEvent r fs)
            return (u, fs)) := by
      rw [hn]
      refine AgreeUnless.bind_left fun _ => ?_
      exact (notify_agree_observer o (u.firedEvent r fs)).bind fun _ _ _ => .pure ⟨rfl, hu, hn⟩
    cases hp : s.options.pure with
    | true =>
      have hleft : ((s.withObserver o).remember r a.token).options.pure = true := hp
      have hright : (s.remember r a.token).options.pure = true := hp
      simp only [hleft, hright, if_true, pure_bind]
      exact hsay (s.remember r a.token) hs hn
    | false =>
      have hleft : ((s.withObserver o).remember r a.token).options.pure = false := hp
      have hright : (s.remember r a.token).options.pure = false := hp
      simp only [hleft, hright, Bool.false_eq_true, if_false]
      refine (interpret_agree_observer (s := s.remember r a.token) o hs hn fs).bind ?_
      rintro _ u ⟨rfl, hu, hn⟩
      exact hsay u hu hn

theorem step_agree_observer :
    AgreeUnless (Unheard o) (ObservedWith o) (s.withObserver o).step s.step := by
  unfold step
  rw [show (s.withObserver o).pending = s.pending from rfl]
  cases s.pending with
  | nil => exact .pure ⟨rfl, hs, hn⟩
  | cons a rest =>
    refine (fire_agree_observer (s := { s with pending := rest }) o hs hn a).bind ?_
    rintro _ ⟨u, fs⟩ ⟨rfl, hu, hn⟩
    refine (rebuild_agree_observer o hu hn).bind ?_
    rintro _ v ⟨rfl, hv, hn⟩
    exact .pure ⟨rfl, hv, hn⟩

theorem runSteps_agree_observer (n : Nat) :
    AgreeUnless (Unheard o) (ObservedWith o) (runSteps n (s.withObserver o)) (runSteps n s) := by
  induction n generalizing s with
  | zero => exact .pure ⟨rfl, hs, hn⟩
  | succ n ih =>
    refine (step_agree_observer o hs hn).bind ?_
    rintro _ ⟨t, a⟩ ⟨rfl, ht, hn⟩
    cases a with
    | none => exact .pure ⟨rfl, ht, hn⟩
    | some a =>
      refine (ih ht hn).bind ?_
      rintro _ ⟨u, as⟩ ⟨rfl, hu, hn⟩
      exact .pure ⟨rfl, hu, hn⟩

theorem run_agree_observer (fuel : Nat) (maxSteps : Value) :
    AgreeUnless (Unheard o) (ObservedWith o) ((s.withObserver o).run fuel maxSteps)
      (s.run fuel maxSteps) := by
  unfold run
  split
  · exact runSteps_agree_observer o hs hn _
  · exact AgreeUnless.bind_left fun budget => runSteps_agree_observer o hs hn _

theorem apply_agree_observer (items : List Item) :
    AgreeUnless (Unheard o) (ObservedWith o) ((s.withObserver o).apply items) (s.apply items) := by
  refine AgreeUnless.bind_left fun fs => (interpret_agree_observer o hs hn fs).bind ?_
  rintro _ t ⟨rfl, ht, hn⟩
  exact .pure ⟨rfl, ht, hn⟩

/-- Every operation keeps the two sessions together: it fails on both in the same way, or returns on
both and fires the same, unless the observer cannot be told of something. -/
theorem perform_agree_observer (p : Operation) :
    AgreeUnless (Unheard o) (ObservedWith o) ((s.withObserver o).perform p) (s.perform p) := by
  cases p with
  | assertFact fact | retract fact | upsert fact =>
    refine (change_agree_observer o hs hn _).bind ?_
    rintro _ t ⟨rfl, ht, hn⟩
    exact .pure ⟨rfl, ht, hn⟩
  | step =>
    refine (step_agree_observer o hs hn).bind ?_
    rintro _ ⟨t, a⟩ ⟨rfl, ht, hn⟩
    exact .pure ⟨rfl, ht, hn⟩
  | run fuel maxSteps =>
    exact run_agree_observer o hs hn fuel maxSteps
  | apply items =>
    refine (apply_agree_observer o hs hn items).bind ?_
    rintro _ ⟨t, fs⟩ ⟨rfl, ht, hn⟩
    exact .pure ⟨rfl, ht, hn⟩

theorem performAll_agree_observer (ps : List Operation) :
    AgreeUnless (Unheard o) (ObservedWith o) ((s.withObserver o).performAll ps)
      (s.performAll ps) := by
  induction ps generalizing s with
  | nil => exact .pure ⟨rfl, hs, hn⟩
  | cons p ps ih =>
    refine (perform_agree_observer o hs hn p).bind ?_
    rintro _ ⟨t, as⟩ ⟨rfl, ht, hn⟩
    refine (ih ht hn).bind ?_
    rintro _ ⟨u, bs⟩ ⟨rfl, hu, hn⟩
    exact .pure ⟨rfl, hu, hn⟩

end

/-! ## New sessions -/

theorem IsNew.withObserver (h : IsNew s) (o : Option Observer) : IsNew (s.withObserver o) := by
  obtain ⟨hview, hnames⟩ := h.eq_initial
  let options : Options := { s.options with observer := o }
  have hsession : s.withObserver o = ⟨.initial options, s.rules⟩ := by
    rw [Session.withObserver, hview]
    rfl
  refine ⟨fun _ => none, .list (s.rules.map .rule), .options options, none, [], ?_⟩
  change (Options.build (.options options) [] >>= fun options =>
    (Source.list (s.rules.map .rule)).compileAll _ >>= fun rules => ofRules rules options) = _
  rw [Options.build_self, hsession]
  change ((Source.list (s.rules.map .rule)).compileAll _ >>= fun rules => ofRules rules options) = _
  rw [compileAll_rules]
  exact ofRules_of_distinct hnames options

/-! ## What observers see -/

end Session

end RuleEngine
