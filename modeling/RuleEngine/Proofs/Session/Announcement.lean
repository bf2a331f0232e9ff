import RuleEngine.Proofs.Events
import RuleEngine.Proofs.Memory.Identity
import RuleEngine.Proofs.Session.History

/-!
# What operations announce

Events are given in three places: a change of the facts that changed something announces it, a
rebuild announces the agenda it built, and a firing announces itself between the two rebuilds around
it. Matching, and the reading of an effect list, only log. So the events of each operation can be
read off as its answer can: one lemma for each says which events it delivers to an observer that
takes every one (`Session.IsRecorded`).

* `rebuild_emits`, `change_emits`, `changeAll_emits`, `interpret_emits`, `fire_emits`, `step_emits`:
  the events of the operations.
* `Reports`: the events of a list of changes, made in turn. `Announces`: the events of a firing.
* `Tallied`: every counter has gone up by the number of events of its kind. Each operation does this
  (`perform_tallied`).
-/

namespace RuleEngine

namespace Session

variable {s t u : Session} {es : List Event} {a : Activation} {as : List Activation}
variable {c : Change} {cs : List Change} {fs : List Effect}

/-- The session's observer takes every event. -/
def IsRecorded (s : Session) : Prop := s.options.observer = some Recorder.observer

theorem Keeps.isRecorded (h : Keeps s t) (hs : s.IsRecorded) : t.IsRecorded := by
  rw [IsRecorded, h.options]
  exact hs

theorem IsRecorded.notify_emits (hs : s.IsRecorded) {event : Event} {x : Unit} :
    (Observer.notify s.options.observer event).Emits es x ↔ es = [event] := by
  rw [show s.options.observer = some Recorder.observer from hs]
  exact Traced.emits_give

/-! ## What delivers nothing -/

theorem ruleActivations_isSilent (facts : List Value) (r : Rule) :
    (ruleActivations facts r).IsSilent := by
  have hlogged : ∀ as : List Attempt,
      (as.flatMap Attempt.notices).filterMap Notice.event? = [] := by
    intro as
    refine List.filterMap_eq_nil_iff.mpr fun n hn => ?_
    obtain ⟨a, -, ha⟩ := List.mem_flatMap.mp hn
    cases a <;> simp [Attempt.notices] at ha <;> rw [ha] <;> rfl
  have hmatch : (Pattern.matchAll r.patterns facts).IsSilent := by
    unfold Pattern.matchAll
    refine Traced.IsSilent.bind (hlogged _) fun _ => ?_
    split
    · exact .pure _
    · exact .ofExcept _
  exact hmatch.bind fun bs => .ofExcept _

theorem activations_isSilent (s : Session) : s.activations.IsSilent :=
  .mapM (ruleActivations_isSilent s.memory.facts) s.rules

theorem knownEffects_isSilent (is : List Item) : (knownEffects is).IsSilent := by
  induction is with
  | nil => exact .pure _
  | cons i is ih =>
    cases i with
    | effect e => exact ih.bind fun _ => .pure _
    | other v => exact .bind (.ofExcept _) fun _ => .bind rfl fun _ => ih

/-! ## Changing the facts -/

theorem rebuild_emits (hs : s.IsRecorded) :
    s.rebuild.Emits es t ↔ s.IsMatchable ∧ t = s.rebuilt ∧ es = [t.builtEvent] := by
  simp only [rebuild, Traced.emits_bind, s.activations_isSilent.emits_iff, activations_eq_ok,
    Traced.emits_give, hs.notify_emits, Traced.emits_pure]
  constructor
  · rintro ⟨_, _, _, ⟨⟨hm, rfl⟩, rfl⟩, ⟨_, _, _, rfl, ⟨_, _, _, rfl, ⟨rfl, rfl⟩, rfl⟩, rfl⟩, rfl⟩
    exact ⟨hm, rfl, rfl⟩
  · rintro ⟨hm, rfl, rfl⟩
    exact ⟨_, _, _, ⟨⟨hm, rfl⟩, rfl⟩,
      ⟨(), _, _, rfl, ⟨(), _, _, rfl, ⟨rfl, rfl⟩, rfl⟩, rfl⟩, rfl⟩

theorem announce_emits (hs : s.IsRecorded) {md : List (Value × Value)} {k : FactKey}
    {n : Counters} :
    (s.announce c md k).Emits es n ↔
      k.value.checkText = .ok () ∧ n = c.count s.counters ∧ es = [c.event md k] := by
  simp only [announce, Traced.emits_bind, Traced.emits_ofExcept, lift_eq_ok, hs.notify_emits,
    Traced.emits_pure]
  constructor
  · rintro ⟨_, _, _, ⟨hk, rfl⟩, ⟨_, _, _, rfl, ⟨rfl, rfl⟩, rfl⟩, rfl⟩
    exact ⟨hk, rfl, rfl⟩
  · rintro ⟨hk, rfl, rfl⟩
    exact ⟨(), _, _, ⟨hk, rfl⟩, ⟨(), _, _, rfl, ⟨rfl, rfl⟩, rfl⟩, rfl⟩

/-- A change announces what it changed, if it changed something, and then the agenda it built. -/
theorem change_emits (hs : s.IsRecorded) (h : (s.change c).Emits es t) :
    ∃ md m k, c.metadata s.memory = .ok md ∧ c.run s.memory = .ok (m, k) ∧
      t = (s.changed c m k).rebuilt ∧ es = k.toList.map (c.event md) ++ [t.builtEvent] := by
  simp only [change, Traced.emits_bind, Traced.emits_ofExcept, lift_eq_ok] at h
  obtain ⟨md, _, _, ⟨hmd, rfl⟩, ⟨⟨m, k⟩, _, _, ⟨hrun, rfl⟩, h, rfl⟩, rfl⟩ := h
  have hrecorded (n : Counters) : IsRecorded { s with memory := m, counters := n } := hs
  refine ⟨md, m, k, hmd, hrun, ?_⟩
  cases k with
  | none =>
    rw [pure_bind, rebuild_emits (hrecorded _)] at h
    obtain ⟨-, rfl, rfl⟩ := h
    exact ⟨rfl, rfl⟩
  | some k =>
    simp only [Traced.emits_bind, announce_emits hs, rebuild_emits (hrecorded _)] at h
    obtain ⟨_, _, _, ⟨-, rfl, rfl⟩, ⟨-, rfl, rfl⟩, rfl⟩ := h
    exact ⟨rfl, rfl⟩

/-- Changes made in turn, and the events they deliver: an announcement of each that changed the
facts, and of each the agenda that was built after it. -/
inductive Reports : Session → List Change → List Event → Session → Prop where
  | nil (s : Session) : Reports s [] [] s
  | kept {s t u : Session} {c : Change} {cs : List Change} {es : List Event}
      (change : (s.change c).value = .ok t) (same : t.memory = s.memory)
      (rest : Reports t cs es u) :
      Reports s (c :: cs) (t.builtEvent :: es) u
  | changed {s t u : Session} {c : Change} {cs : List Change} {es : List Event}
      {md : List (Value × Value)} {k : FactKey} (change : (s.change c).value = .ok t)
      (metadata : c.metadata s.memory = .ok md) (run : c.run s.memory = .ok (t.memory, some k))
      (differ : ¬ s.memory.Same t.memory) (rest : Reports t cs es u) :
      Reports s (c :: cs) (c.event md k :: t.builtEvent :: es) u

theorem changeAll_emits (hs : s.IsRecorded) (h : (s.changeAll fs).Emits es t) :
    Reports s (fs.filterMap Change.ofEffect?) es t := by
  induction fs generalizing s es with
  | nil =>
    obtain ⟨rfl, rfl⟩ := Traced.emits_pure.mp h
    exact .nil _
  | cons f fs ih =>
    rw [changeAll] at h
    cases hc : Change.ofEffect? f with
    | none =>
      rw [hc, pure_bind] at h
      rw [List.filterMap_cons_none hc]
      exact ih hs h
    | some c =>
      rw [hc] at h
      rw [List.filterMap_cons_some hc]
      obtain ⟨u, here, later, hu, hlater, rfl⟩ := Traced.emits_bind.mp h
      have hrest := ih ((change_keeps hu.1).isRecorded hs) hlater
      obtain ⟨md, m, k, hmd, hrun, rfl, rfl⟩ := change_emits hs hu
      obtain ⟨l, -, -, hedit⟩ := Memory.run_edit hrun
      rcases hedit.reported with ⟨rfl, hsame⟩ | ⟨rfl, hdiffer⟩
      · exact .kept hu.1 hsame hrest
      · exact .changed hu.1 hmd hrun hdiffer hrest

theorem interpret_emits : (s.interpret fs).Emits es t ↔
    ∃ u, (s.changeAll fs).Emits es u ∧ t = u.countEffects fs.length := by
  simp only [interpret, Traced.emits_bind]
  cases fs with
  | nil => simp [Traced.emits_pure, countEffects]
  | cons f fs => simp [Traced.emits_pure, countEffects]

/-! ## Firing -/

theorem fire_emits (hs : s.IsRecorded) (h : (s.fire a).Emits es (t, fs)) :
    ∃ r es', s.rule? a.rule = some r ∧ es = es' ++ [s.firedEvent r fs] ∧
      if s.options.pure then t = s.remember r a.token ∧ es' = []
      else ((s.remember r a.token).interpret fs).Emits es' t := by
  unfold fire at h
  cases hr : s.rule? a.rule with
  | none =>
    rw [hr] at h
    obtain ⟨⟨⟩, -⟩ := Traced.emits_ofExcept.mp h
  | some r =>
    have hremember : (s.remember r a.token).options = s.options := rfl
    have hfired {v : Session} (hv : v.options = s.options) :
        v.firedEvent r fs = s.firedEvent r fs := by
      rw [firedEvent, firedEvent, hv]
    have hsay {v : Session} {later : List Event} {w : Session × List Effect} {gs : List Effect}
        (hv : v.options = s.options) (h : (do
          Traced.give [.logged .debug "activation_fired"]
          Observer.notify v.options.observer (v.firedEvent r gs)
          return (v, gs) : Traced (Session × List Effect)).Emits later w) :
        w = (v, gs) ∧ later = [v.firedEvent r gs] := by
      have hrecorded : v.IsRecorded := by
        rw [IsRecorded, hv]
        exact hs
      simp only [Traced.emits_bind, Traced.emits_give, hrecorded.notify_emits,
        Traced.emits_pure] at h
      obtain ⟨_, _, _, rfl, ⟨_, _, _, rfl, ⟨rfl, rfl⟩, rfl⟩, rfl⟩ := h
      exact ⟨rfl, rfl⟩
    simp only [hr, Traced.emits_bind, Traced.emits_ofExcept, hremember,
      (knownEffects_isSilent _).emits_iff] at h
    obtain ⟨items, _, _, ⟨-, rfl⟩, ⟨fs', _, _, ⟨-, rfl⟩, h, rfl⟩, rfl⟩ := h
    by_cases hp : s.options.pure = true
    · simp only [hp, if_true, pure_bind] at h
      obtain ⟨heq, rfl⟩ := hsay hremember h
      obtain ⟨rfl, rfl⟩ := Prod.mk.inj heq
      refine ⟨r, [], rfl, ?_, ?_⟩
      · rw [hfired hremember]
        rfl
      · rw [if_pos hp]
        exact ⟨rfl, rfl⟩
    · simp only [hp, Bool.false_eq_true, if_false] at h
      obtain ⟨v, es', _, hv, hlast, rfl⟩ := Traced.emits_bind.mp h
      have hkept := (interpret_keeps hv.1).options
      obtain ⟨heq, rfl⟩ := hsay hkept hlast
      obtain ⟨rfl, rfl⟩ := Prod.mk.inj heq
      refine ⟨r, es', rfl, ?_, ?_⟩
      · rw [hfired hkept]
      · rw [if_neg hp]
        exact hv

theorem step_emits (hs : s.IsRecorded) {o : Option Activation} (h : s.step.Emits es (t, o)) :
    (s.pending = [] ∧ t = s ∧ o = none ∧ es = []) ∨
    ∃ a rest u fs es', s.pending = a :: rest ∧ o = some a ∧
      (fire { s with pending := rest } a).Emits es' (u, fs) ∧
      t = u.rebuilt.withLastEffects fs ∧ es = es' ++ [t.builtEvent] := by
  unfold step at h
  cases hp : s.pending with
  | nil =>
    rw [hp] at h
    obtain ⟨heq, rfl⟩ := Traced.emits_pure.mp h
    obtain ⟨rfl, rfl⟩ := Prod.mk.inj heq
    exact .inl ⟨rfl, rfl, rfl, rfl⟩
  | cons a rest =>
    simp only [hp, Traced.emits_bind, Traced.emits_pure, Prod.mk.injEq, Prod.exists] at h
    obtain ⟨u, fs, es', _, hu, ⟨v, _, _, hv, ⟨⟨rfl, rfl⟩, rfl⟩, rfl⟩, rfl⟩ := h
    have hrecorded : u.IsRecorded := by
      obtain ⟨r, _, _, _, -, hr, -⟩ := fire_eq_ok.mp hu.1
      split at hr
      · rw [hr]
        exact hs
      · exact (interpret_keeps hr).isRecorded hs
    obtain ⟨-, rfl, rfl⟩ := (rebuild_emits hrecorded).mp hv
    exact .inr ⟨a, rest, u, fs, es', rfl, rfl, hu, rfl, rfl⟩

/-- The events of a firing: the reports of the changes its effects ask for, the firing itself, and
the agenda that is built last. In pure mode no changes are made. -/
def Announces (s : Session) (a : Activation) (es : List Event) (t : Session) : Prop :=
  ∃ rest r reports u, s.pending = a :: rest ∧ s.rule? a.rule = some r ∧
    Reports (remember { s with pending := rest } r a.token)
      (if s.options.pure then [] else t.lastEffects.filterMap Change.ofEffect?) reports u ∧
    t.memory = u.memory ∧ es = reports ++ [s.firedEvent r t.lastEffects, t.builtEvent]

theorem step_announces (hs : s.IsRecorded) (h : s.step.Emits es (t, some a)) :
    s.Announces a es t := by
  obtain ⟨-, -, ⟨⟩, -⟩ | ⟨_, rest, u, fs, es', hp, ⟨⟩, hfire, rfl, rfl⟩ := step_emits hs h
  have hrecorded : IsRecorded { s with pending := rest } := hs
  obtain ⟨r, reports, hr, rfl, hu⟩ := fire_emits hrecorded hfire
  refine ⟨rest, r, reports, ?_⟩
  split at hu
  · rename_i hpure
    obtain ⟨rfl, rfl⟩ := hu
    refine ⟨remember { s with pending := rest } r a.token, hp, hr, ?_, rfl, List.append_assoc _ _ _⟩
    rw [if_pos hpure]
    exact .nil _
  · rename_i hpure
    obtain ⟨v, hv, rfl⟩ := interpret_emits.mp hu
    refine ⟨v, hp, hr, ?_, rfl, List.append_assoc _ _ _⟩
    rw [if_neg hpure]
    exact changeAll_emits (show IsRecorded (remember _ r a.token) from hs) hv

/-- Activations fired one after the other, and the events of their firings. -/
inductive Firings : Session → List Activation → List Event → Session → Prop where
  | refl (s : Session) : Firings s [] [] s
  | next {s t u : Session} {a : Activation} {as : List Activation} {es fs : List Event}
      (step : s.step.Emits es (t, some a)) (announces : s.Announces a es t)
      (rest : Firings t as fs u) : Firings s (a :: as) (es ++ fs) u

theorem step_isRecorded (hs : s.IsRecorded) (h : s.step.value = .ok (t, some a)) :
    t.IsRecorded := by
  rw [IsRecorded, (step_keeps h).2]
  exact hs

/-- A run delivers the events of its firings, one firing after the other. -/
theorem runSteps_emits {n : Nat} (hs : s.IsRecorded) (h : (runSteps n s).Emits es (t, as)) :
    Firings s as es t := by
  induction n generalizing s as es with
  | zero =>
    obtain ⟨heq, rfl⟩ := Traced.emits_pure.mp h
    obtain ⟨rfl, rfl⟩ := Prod.mk.inj heq
    exact .refl _
  | succ n ih =>
    rw [runSteps] at h
    obtain ⟨⟨u, o⟩, here, later, hstep, hlater, rfl⟩ := Traced.emits_bind.mp h
    cases o with
    | none =>
      obtain ⟨heq, rfl⟩ := Traced.emits_pure.mp hlater
      obtain ⟨rfl, rfl⟩ := Prod.mk.inj heq
      obtain ⟨-, rfl, -, rfl⟩ | ⟨_, _, _, _, _, -, ⟨⟩, -⟩ := step_emits hs hstep
      exact .refl _
    | some a =>
      simp only [Traced.emits_bind, Traced.emits_pure, Prod.mk.injEq, Prod.exists] at hlater
      obtain ⟨v, bs, _, _, hrest, ⟨⟨rfl, rfl⟩, rfl⟩, rfl⟩ := hlater
      rw [List.append_nil]
      exact .next hstep (step_announces hs hstep) (ih (step_isRecorded hs hstep.1) hrest)

theorem run_emits {fuel : Nat} {maxSteps : Value} (hs : s.IsRecorded)
    (h : (s.run fuel maxSteps).Emits es (t, as)) : Firings s as es t := by
  simp only [run] at h
  split at h
  · rw [pure_bind] at h
    exact runSteps_emits hs h
  · simp only [Traced.emits_bind, Traced.emits_ofExcept] at h
    obtain ⟨budget, _, later, ⟨-, rfl⟩, hruns, rfl⟩ := h
    exact runSteps_emits hs hruns

end Session

/-! ## What the counters count -/

namespace Counters

variable {c d e : Counters} {es fs : List Event}

/-- The kinds of events, each with the counter that counts it. -/
def kinds : List (String × (Counters → Nat)) :=
  [("memory.assert", (·.asserted)), ("memory.retract", (·.retracted)),
   ("memory.upsert", (·.upserted)), ("agenda.build", (·.agendaBuilds)),
   ("activation.fire", (·.fired))]

/-- Every counter has gone up by the number of events of its kind. -/
def Tallied (c d : Counters) (es : List Event) : Prop :=
  ∀ k ∈ kinds, k.2 d = k.2 c + (es.filter fun e => e.name == k.1).length

theorem Tallied.refl (c : Counters) : Tallied c c [] := fun _ _ => rfl

theorem Tallied.perm (h : Tallied c d es) (hp : es.Perm fs) : Tallied c d fs := by
  intro k hk
  rw [h k hk, (hp.filter _).length_eq]

theorem Tallied.trans (h : Tallied c d es) (h' : Tallied d e fs) : Tallied c e (es ++ fs) := by
  intro k hk
  rw [List.filter_append, List.length_append, h' k hk, h k hk, Nat.add_assoc]

end Counters

namespace Session

open Counters (Tallied)

variable {s t : Session} {es : List Event} {fs : List Effect}

theorem rebuilt_tallied (s : Session) :
    Tallied s.counters s.rebuilt.counters [s.rebuilt.builtEvent] := by
  simp [Tallied, Counters.kinds, rebuilt, builtEvent, Agenda.builtEvent]

theorem change_tallied {c : Change} (hs : s.IsRecorded) (h : (s.change c).Emits es t) :
    Tallied s.counters t.counters es := by
  obtain ⟨md, m, k, -, -, rfl, rfl⟩ := change_emits hs h
  refine .trans ?_ (rebuilt_tallied (s.changed c m k))
  cases k with
  | none => exact .refl _
  | some k => cases c <;> simp [Tallied, Counters.kinds, changed, Change.event, Change.eventName,
      Change.count]

theorem changeAll_tallied (hs : s.IsRecorded) (h : (s.changeAll fs).Emits es t) :
    Tallied s.counters t.counters es := by
  induction fs generalizing s es with
  | nil =>
    obtain ⟨rfl, rfl⟩ := Traced.emits_pure.mp h
    exact .refl _
  | cons f fs ih =>
    rw [changeAll] at h
    cases hc : Change.ofEffect? f with
    | none =>
      rw [hc, pure_bind] at h
      exact ih hs h
    | some c =>
      rw [hc] at h
      obtain ⟨u, here, later, hu, hlater, rfl⟩ := Traced.emits_bind.mp h
      exact (change_tallied hs hu).trans (ih ((change_keeps hu.1).isRecorded hs) hlater)

theorem interpret_tallied (hs : s.IsRecorded) (h : (s.interpret fs).Emits es t) :
    Tallied s.counters t.counters es := by
  obtain ⟨u, hu, rfl⟩ := interpret_emits.mp h
  -- the effects are counted too, but no event goes with them
  have hcount : Tallied u.counters (u.countEffects fs.length).counters [] := by
    simp [Tallied, Counters.kinds, countEffects]
  have htallied := (changeAll_tallied hs hu).trans hcount
  rwa [List.append_nil] at htallied

theorem step_tallied {o : Option Activation} (hs : s.IsRecorded) (h : s.step.Emits es (t, o)) :
    Tallied s.counters t.counters es := by
  obtain ⟨-, rfl, -, rfl⟩ | ⟨a, rest, u, fs, es', -, -, hfire, rfl, rfl⟩ := step_emits hs h
  · exact .refl _
  · have hrecorded : IsRecorded { s with pending := rest } := hs
    obtain ⟨r, reports, -, rfl, hu⟩ := fire_emits hrecorded hfire
    have hfired (v : Session) : Tallied v.counters (v.remember r a.token).counters
        [firedEvent { s with pending := rest } r fs] := by
      simp [Tallied, Counters.kinds, remember, firedEvent]
    refine .trans ?_ (rebuilt_tallied u)
    split at hu
    · obtain ⟨rfl, rfl⟩ := hu
      exact hfired { s with pending := rest }
    · have hremembered : IsRecorded (remember { s with pending := rest } r a.token) := hs
      have hreports := interpret_tallied hremembered hu
      exact ((hfired { s with pending := rest }).trans hreports).perm List.perm_append_comm

theorem firings_tallied {as : List Activation} (hs : s.IsRecorded) (h : Firings s as es t) :
    Tallied s.counters t.counters es := by
  induction h with
  | refl => exact .refl _
  | next hstep _ _ ih => exact (step_tallied hs hstep).trans (ih (step_isRecorded hs hstep.1))

/-- Every operation counts the events it delivers, each with the counter of its kind. -/
theorem perform_tallied {o : Operation} {as : List Activation} (hs : s.IsRecorded)
    (h : (s.perform o).Emits es (t, as)) : Tallied s.counters t.counters es := by
  cases o with
  | assertFact fact | retract fact | upsert fact =>
    simp only [perform, Traced.emits_bind, Traced.emits_pure, Prod.mk.injEq] at h
    obtain ⟨_, here, _, hchange, ⟨⟨rfl, rfl⟩, rfl⟩, rfl⟩ := h
    rw [List.append_nil]
    exact change_tallied hs hchange
  | step =>
    simp only [perform, Traced.emits_bind, Traced.emits_pure, Prod.mk.injEq, Prod.exists] at h
    obtain ⟨_, o, here, _, hstep, ⟨⟨rfl, rfl⟩, rfl⟩, rfl⟩ := h
    rw [List.append_nil]
    exact step_tallied hs hstep
  | run fuel maxSteps =>
    exact firings_tallied hs (run_emits hs h)
  | apply items =>
    simp only [perform, apply, Traced.emits_bind, Traced.emits_pure, Prod.mk.injEq, Prod.exists,
      (knownEffects_isSilent items).emits_iff] at h
    obtain ⟨_, _, _, _, ⟨fs, _, _, ⟨-, rfl⟩, ⟨u, here, _, hinterpret, ⟨⟨rfl, rfl⟩, rfl⟩, rfl⟩, rfl⟩,
      ⟨⟨rfl, rfl⟩, rfl⟩, rfl⟩ := h
    rw [List.nil_append, List.append_nil, List.append_nil]
    exact interpret_tallied hs hinterpret

end Session

end RuleEngine
