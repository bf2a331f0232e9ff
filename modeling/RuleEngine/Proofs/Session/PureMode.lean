import RuleEngine.Proofs.Session.Freshness

/-!
# Pure mode

In pure mode a step only collects the effects of what it fires, and `apply` interprets them later.
That takes another path: the agenda is built before the effects and not after them, the list of
effects is read a second time, and the counters are bumped by another operation. The two paths end
in the same session, because a change builds the agenda from the facts alone: building it once more
before some changes is the same as building it once more after them (`afterBuild_changeAll`).

* `afterBuild_change`, `afterBuild_changeAll`, `afterBuild_interpret`: a build and the changes that
  effects ask for commute.
* `stepAndApply_eq_ok`: one step in pure mode and the application of its effects.
* `pure_simulates`: any number of them.
-/

namespace RuleEngine

def View.inPureMode (v : View) : View := { v with options := { v.options with pure := true } }

/-- The action does not look at the option of pure mode. -/
def Rule.IgnoresPureMode (r : Rule) : Prop :=
  ∀ c : ActionContext, r.action { c with view := c.view.inPureMode } = r.action c

namespace Session

variable {s t : Session} {a : Activation} {as : List Activation} {es : List Effect}

def inPureMode (s : Session) : Session := { s with options := { s.options with pure := true } }

/-- A step, and the application of the effects it leaves. -/
def stepAndApply (s : Session) : Traced (Session × Option Activation) := do
  let (s, a) ← s.step
  let (s, _) ← s.apply (s.lastEffects.map .effect)
  return (s, a)

/-! ## Building the agenda before the effects -/

/-- The session in pure mode once its agenda has been built and effects have been left. -/
def afterBuild (s : Session) (es : List Effect) : Session :=
  (s.rebuilt.withLastEffects es).inPureMode

theorem afterBuild_change {c : Change} (h : (s.change c).value = .ok t) :
    ((s.afterBuild es).change c).value = .ok (t.afterBuild es) := by
  obtain ⟨m, k, ⟨md, hmd, hrun, hkey⟩, hb, rfl⟩ := change_eq_ok.mp h
  have hkey' : ∀ key ∈ k, (s.afterBuild es).CanAnnounce c md key := fun key hk =>
    ⟨(hkey key hk).written, (hkey key hk).told⟩
  have hb' : ((s.afterBuild es).changed c m k).IsBuildable := ⟨hb.matchable, hb.told⟩
  refine change_eq_ok.mpr ⟨m, k, ⟨md, hmd, hrun, hkey'⟩, hb', ?_⟩
  cases k with
  | none => rfl
  | some k => cases c <;> rfl

theorem afterBuild_changeAll {fs : List Effect} (h : (s.changeAll fs).value = .ok t) :
    ((s.afterBuild es).changeAll fs).value = .ok (t.afterBuild es) := by
  induction fs generalizing s with
  | nil => rw [changeAll_nil_eq_ok.mp h, changeAll_nil_eq_ok]
  | cons e fs ih =>
    obtain ⟨u, hu, h⟩ := changeAll_cons_eq_ok.mp h
    refine changeAll_cons_eq_ok.mpr ⟨u.afterBuild es, ?_, ih h⟩
    cases hc : Change.ofEffect? e with
    | some c =>
      rw [hc] at hu
      exact afterBuild_change hu
    | none =>
      rw [hc] at hu
      rw [show u = s from hu]

theorem afterBuild_interpret {fs : List Effect} (h : (s.interpret fs).value = .ok t) :
    ((s.afterBuild es).interpret fs).value = .ok (t.afterBuild es) := by
  obtain ⟨u, hu, rfl⟩ := interpret_eq_ok.mp h
  exact interpret_eq_ok.mpr ⟨_, afterBuild_changeAll hu, rfl⟩

/-! ## One step -/

theorem run_inPureMode {r : Rule} (hr : r.IgnoresPureMode) (b : Binding) :
    r.run (s.inPureMode.context b) = r.run (s.context b) := by
  have h : r.action (s.inPureMode.context b) = r.action (s.context b) := hr (s.context b)
  rw [Rule.run, h, Rule.run]

section

variable (hp : s.options.pure = false) (hr : ∀ r ∈ s.rules, r.IgnoresPureMode)
  (ho : Observer.FailsWritably s.options.observer)

include hp hr ho

/-- A pure firing stops where a normal one goes on to interpret the effects. -/
theorem fire_inPureMode (h : (s.fire a).value = .ok (t, es)) :
    ∃ u : Session, u.rules = s.rules ∧ u.memory = s.memory ∧ u.options = s.options ∧
      (s.inPureMode.fire a).value = .ok (u.inPureMode, es) ∧ (u.interpret es).value = .ok t := by
  obtain ⟨r, items, hrule, hrun, hes, hu, -⟩ := fire_eq_ok.mp h
  rw [if_neg (by simp [hp])] at hu
  refine ⟨s.remember r a.token, rfl, rfl, rfl,
    fire_eq_ok.mpr ⟨r, items, hrule, ?_, hes, ?_, ho _⟩, hu⟩
  · rw [run_inPureMode (hr r (List.mem_of_find?_eq_some hrule))]
    exact hrun
  · rw [if_pos (show s.inPureMode.options.pure = true from rfl)]
    rfl

/-- Where a normal step fires, so does a pure one, and the application of what it leaves makes up
for the difference. -/
theorem stepAndApply_eq_ok (hs : s.IsMatchable) (h : s.step.value = .ok (t, some a)) :
    s.inPureMode.stepAndApply.value = .ok (t.inPureMode, some a) := by
  obtain ⟨-, -, ⟨⟩⟩ | ⟨_, rest, t, es, hpend, ⟨⟩, hf, -, rfl⟩ := step_eq_ok.mp h
  obtain ⟨u, hrules, hmem, hoptions, hfire, ht⟩ :=
    fire_inPureMode (s := { s with pending := rest }) hp hr ho hf
  have hmatch : u.inPureMode.IsMatchable := by
    rw [IsMatchable, show u.inPureMode.rules = s.rules from hrules,
      show u.inPureMode.memory = s.memory from hmem]
    exact hs
  have htold : Observer.CanTell u.options.observer u.inPureMode.rebuilt.builtEvent := by
    rw [hoptions]
    exact ho _
  have hstep : s.inPureMode.step.value = .ok (u.afterBuild es, some a) :=
    step_eq_ok.mpr (.inr ⟨a, rest, u.inPureMode, es, hpend, rfl, hfire, ⟨hmatch, htold⟩, rfl⟩)
  simp only [stepAndApply, Traced.bind_value_eq_ok]
  exact ⟨_, hstep, _, apply_eq_ok.mpr ⟨knownEffects_effects es, afterBuild_interpret ht⟩, rfl⟩

end

/-! ## Any number of steps -/

/-- Pure mode with `apply` simulates normal mode: from a reachable session, as often as normal steps
fire, pure steps with their effects applied fire the same, and end in the same session but for the
option. The observer is told more in pure mode, so whatever it fails on, it must be possible to log
that. -/
theorem pure_simulates (h : s.Reachable) (hp : s.options.pure = false)
    (hr : ∀ r ∈ s.rules, r.IgnoresPureMode) (ho : Observer.FailsWritably s.options.observer)
    (hf : Fires step s as t) :
    Fires stepAndApply s.inPureMode as t.inPureMode ∧ t.inPureMode.metrics = t.metrics := by
  refine ⟨?_, rfl⟩
  have hs := h.isUpToDate.1
  clear h
  induction hf with
  | refl s => exact .refl _
  | next hstep _ ih =>
    obtain ⟨hrules, hoptions⟩ := step_keeps hstep
    refine .next (stepAndApply_eq_ok hp hr ho hs hstep) (ih ?_ ?_ ?_ (step_isUpToDate hstep).1)
    · rw [hoptions]
      exact hp
    · rw [hrules]
      exact hr
    · rw [hoptions]
      exact ho

/-- Two guests are welcomed in pure mode as they are in normal mode. -/
theorem pure_simulates_guests : ∃ (s t : Session) (as : List Activation), s.Reachable ∧
    s.options.pure = false ∧ (∀ r ∈ s.rules, r.IgnoresPureMode) ∧
    Observer.FailsWritably s.options.observer ∧ Fires step s as t ∧
    as.length = 2 ∧ t.memory.size = 4 ∧ Fires stepAndApply s.inPureMode as t.inPureMode := by
  let os : List Operation :=
    [.assertFact (Sample.fact "guest" (.int 1)), .assertFact (Sample.fact "guest" (.int 2))]
  have hd : (Sample.start.replay os >>= fun r => (runSteps 9 r.1).value >>= fun q =>
      pure (r.1.options.pure, q.2.length, q.1.memory.size)).toOption = some (false, 2, 4) := by
    decide +kernel
  simp only [toOption_eq_some, bind_eq_ok, pure, Except.pure, Except.ok.injEq, Prod.mk.injEq] at hd
  obtain ⟨r, hr, q, hq, h1, h2, h3⟩ := hd
  have hs : r.1.Reachable := ⟨_, r.2, Sample.start_isNew, replay_history hr⟩
  have hi : ∀ x ∈ r.1.rules, x.IgnoresPureMode := by
    rw [(replay_history hr).keeps.1]
    intro x hx
    obtain rfl : x = Sample.welcome := List.mem_singleton.mp hx
    exact fun _ => rfl
  have ho : Observer.FailsWritably r.1.options.observer := by
    rw [(replay_history hr).keeps.2]
    exact Observer.failsWritably_none
  have hf := runSteps_fires hq
  exact ⟨r.1, q.1, q.2, hs, h1, hi, ho, hf, h2, h3, (pure_simulates hs h1 hi ho hf).1⟩

end Session

end RuleEngine
