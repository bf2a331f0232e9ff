import RuleEngine.Proofs.Agenda
import RuleEngine.Proofs.Observer
import RuleEngine.Proofs.Pattern.Join
import RuleEngine.Session.Run

/-!
# What each operation of a session does

One lemma for each operation says exactly when it returns and what it returns then, its failures
included: a change fails if its key cannot be read or written, and every rebuild fails if some
match cannot be logged or can have no token (`Session.IsMatchable`). An operation also fails where
the observer cannot be told what it announces (`Observer.CanTell`).

* `rebuild_eq_ok`, `change_eq_ok`, `changeAll_cons_eq_ok`, `interpret_eq_ok`, `apply_eq_ok`,
  `fire_eq_ok`, `step_eq_ok`: the operations taken apart.
* `Session.Keeps` is what no change of the facts touches: rules, options, tokens, last effects.
-/

namespace RuleEngine

/-- Whether the rule can be matched: no failed attempt is too long to be logged, and every match can
have a token. -/
def Rule.IsMatchable (r : Rule) (facts : List Value) : Prop :=
  (∀ a ∈ Pattern.joinAttempts facts [[]] r.patterns, a.isUnwritable = false) ∧
    ∀ b ∈ r.bindings facts, (Value.map b).isOverlong = false

namespace Session

variable {s t : Session}

/-! ## Rebuilding the agenda -/

/-- The agenda of the session's rules over its own facts and tokens. -/
def freshAgenda (s : Session) : List Activation :=
  Agenda.build s.rules s.memory s.tokens s.onceTokens s.options.recency

/-- Whether every rule can be matched against the session's facts. -/
def IsMatchable (s : Session) : Prop := ∀ r ∈ s.rules, r.IsMatchable s.memory.facts

def rebuilt (s : Session) : Session :=
  { s with
    pending := s.freshAgenda
    counters := { s.counters with agendaBuilds := s.counters.agendaBuilds + 1 } }

def builtEvent (s : Session) : Event := Agenda.builtEvent s.memory.facts s.pending.length

/-- Whether the agenda can be built anew: the rules can be matched, and the observer can be told of
the agenda. -/
structure IsBuildable (s : Session) : Prop where
  matchable : s.IsMatchable
  told : Observer.CanTell s.options.observer s.rebuilt.builtEvent

/-- A rule gives the activations of its matches if each of these can be shown. -/
theorem mapM_activation_eq_ok {r : Rule} {bs : List Binding} {as : List Activation} :
    bs.mapM (fun b => Activation.of r.name b r.salience r.once) = .ok as ↔
      (∀ b ∈ bs, (Value.map b).isOverlong = false) ∧ as = r.activationsUnder bs := by
  simp only [mapM_eq_ok, Activation.of_eq_ok, Rule.activationsUnder]
  induction bs generalizing as with
  | nil => simp
  | cons b bs ih =>
    simp only [List.forall₂_cons_left_iff, ih, List.forall_mem_cons, List.map_cons]
    constructor
    · rintro ⟨a, rest, ⟨hb, rfl⟩, ⟨hbs, rfl⟩, rfl⟩
      exact ⟨⟨hb, hbs⟩, rfl⟩
    · rintro ⟨⟨hb, hbs⟩, rfl⟩
      exact ⟨_, _, ⟨hb, rfl⟩, ⟨hbs, rfl⟩, rfl⟩

theorem ruleActivations_eq_ok {facts : List Value} {r : Rule} {as : List Activation} :
    (ruleActivations facts r).value = .ok as ↔ r.IsMatchable facts ∧ as = r.activations facts := by
  simp only [ruleActivations, Traced.bind_value_eq_ok, Pattern.matchAll_eq_ok,
    Traced.ofExcept_value, lift_eq_ok, mapM_activation_eq_ok, Rule.IsMatchable, Rule.activations,
    Rule.bindings]
  constructor
  · rintro ⟨bs, ⟨hw, rfl⟩, hshown, rfl⟩
    exact ⟨⟨hw, hshown⟩, rfl⟩
  · rintro ⟨⟨hw, hshown⟩, rfl⟩
    exact ⟨_, ⟨hw, rfl⟩, hshown, rfl⟩

theorem activations_eq_ok {found : List (List Activation)} :
    s.activations.value = .ok found ↔
      s.IsMatchable ∧ found = Agenda.found s.rules s.memory.facts := by
  simp only [activations, Traced.mapM_value_eq_ok, ruleActivations_eq_ok, IsMatchable, Agenda.found]
  generalize s.rules = rules
  induction rules generalizing found with
  | nil => simp
  | cons r rs ih =>
    simp only [List.forall₂_cons_left_iff, ih, List.mem_cons, forall_eq_or_imp, List.map_cons]
    constructor
    · rintro ⟨as, rest, ⟨hr, rfl⟩, ⟨hrs, rfl⟩, rfl⟩
      exact ⟨⟨hr, hrs⟩, rfl⟩
    · rintro ⟨⟨hr, hrs⟩, rfl⟩
      exact ⟨_, _, ⟨hr, rfl⟩, ⟨hrs, rfl⟩, rfl⟩

theorem rebuild_eq_ok : s.rebuild.value = .ok t ↔ s.IsBuildable ∧ t = s.rebuilt := by
  simp only [rebuild, Traced.bind_value_eq_ok, activations_eq_ok, Traced.give_bind_value,
    Observer.notify_eq_ok, Traced.pure_value, Except.ok.injEq]
  constructor
  · rintro ⟨found, ⟨hm, rfl⟩, _, htold, rfl⟩
    exact ⟨⟨hm, htold⟩, rfl⟩
  · rintro ⟨⟨hm, htold⟩, rfl⟩
    exact ⟨_, ⟨hm, rfl⟩, (), htold, rfl⟩

/-! ## Changing the facts -/

/-- The session with a new memory, and with a change counted that changed something. -/
def changed (s : Session) (c : Change) (m : Memory) (k : Option FactKey) : Session :=
  { s with memory := m, counters := if k.isSome then c.count s.counters else s.counters }

/-- Whether a change that changed something under the key can be announced: the key can be written,
and the observer can be told. -/
structure CanAnnounce (s : Session) (c : Change) (md : List (Value × Value)) (k : FactKey) :
    Prop where
  written : k.value.checkText = .ok ()
  told : Observer.CanTell s.options.observer (c.event md k)

/-- Whether the change can be made: what it announces can be read off the memory, the memory can be
changed, and if something changed that can be announced. -/
def Makes (s : Session) (c : Change) (m : Memory) (k : Option FactKey) : Prop :=
  ∃ md, c.metadata s.memory = .ok md ∧ c.run s.memory = .ok (m, k) ∧
    ∀ key ∈ k, s.CanAnnounce c md key

theorem announce_eq_ok {c : Change} {md : List (Value × Value)} {k : FactKey} {n : Counters} :
    (s.announce c md k).value = .ok n ↔ s.CanAnnounce c md k ∧ n = c.count s.counters := by
  simp only [announce, Traced.bind_value_eq_ok, Traced.ofExcept_value, lift_eq_ok,
    Observer.notify_eq_ok, Traced.pure_value, Except.ok.injEq]
  constructor
  · rintro ⟨⟨⟩, hk, ⟨⟩, htold, rfl⟩
    exact ⟨⟨hk, htold⟩, rfl⟩
  · rintro ⟨⟨hk, htold⟩, rfl⟩
    exact ⟨(), hk, (), htold, rfl⟩

theorem change_eq_ok {c : Change} :
    (s.change c).value = .ok t ↔
      ∃ m k, s.Makes c m k ∧ (s.changed c m k).IsBuildable ∧ t = (s.changed c m k).rebuilt := by
  simp only [change, Traced.bind_value_eq_ok, Traced.ofExcept_value, lift_eq_ok, Prod.exists]
  constructor
  · rintro ⟨md, hmd, m, k, hrun, h⟩
    cases k with
    | none =>
      rw [pure_bind, rebuild_eq_ok] at h
      exact ⟨m, none, ⟨md, hmd, hrun, nofun⟩, h⟩
    | some k =>
      simp only [Traced.bind_value_eq_ok, announce_eq_ok, rebuild_eq_ok] at h
      obtain ⟨n, ⟨hk, rfl⟩, h⟩ := h
      exact ⟨m, some k, ⟨md, hmd, hrun, by simpa using hk⟩, h⟩
  · rintro ⟨m, k, ⟨md, hmd, hrun, hk⟩, h⟩
    refine ⟨md, hmd, m, k, hrun, ?_⟩
    cases k with
    | none =>
      rw [pure_bind, rebuild_eq_ok]
      exact h
    | some k =>
      simp only [Traced.bind_value_eq_ok, announce_eq_ok, rebuild_eq_ok]
      exact ⟨_, ⟨hk k rfl, rfl⟩, h⟩

/-! ## Interpreting effects -/

theorem changeAll_nil_eq_ok : (s.changeAll []).value = .ok t ↔ t = s := by
  rw [changeAll, Traced.pure_value, Except.ok.injEq, eq_comm]

theorem changeAll_cons_eq_ok {e : Effect} {es : List Effect} :
    (s.changeAll (e :: es)).value = .ok t ↔
      ∃ u, (match Change.ofEffect? e with
        | some c => (s.change c).value = .ok u
        | none => u = s) ∧ (u.changeAll es).value = .ok t := by
  rw [changeAll]
  cases Change.ofEffect? e with
  | some c => exact Traced.bind_value_eq_ok
  | none => simp only [pure_bind, exists_eq_left]

def countEffects (s : Session) (n : Nat) : Session :=
  { s with counters := { s.counters with effects := s.counters.effects + n } }

theorem interpret_eq_ok {es : List Effect} :
    (s.interpret es).value = .ok t ↔
      ∃ u, (s.changeAll es).value = .ok u ∧ t = u.countEffects es.length := by
  simp only [interpret, Traced.bind_value_eq_ok]
  cases es with
  | nil => simp [countEffects, eq_comm]
  | cons e es => simp [countEffects, eq_comm]

theorem apply_eq_ok {items : List Item} {es : List Effect} :
    (s.apply items).value = .ok (t, es) ↔
      (knownEffects items).value = .ok es ∧ (s.interpret es).value = .ok t := by
  simp only [apply, Traced.bind_value_eq_ok, Traced.pure_value, Except.ok.injEq, Prod.mk.injEq]
  constructor
  · rintro ⟨es, hes, u, hu, rfl, rfl⟩
    exact ⟨hes, hu⟩
  · rintro ⟨hes, hu⟩
    exact ⟨es, hes, t, hu, rfl, rfl⟩

theorem knownEffects_effects (es : List Effect) :
    (knownEffects (es.map .effect)).value = .ok es := by
  induction es with
  | nil => rfl
  | cons e es ih =>
    simp only [List.map_cons, knownEffects, Traced.bind_value_eq_ok, ih, Except.ok.injEq,
      exists_eq_left', Traced.pure_value]

/-! ## What no change of the facts touches -/

/-- The second session has the rules, options, tokens and last effects of the first. -/
structure Keeps (s t : Session) : Prop where
  rules : t.rules = s.rules
  options : t.options = s.options
  tokens : t.tokens = s.tokens
  onceTokens : t.onceTokens = s.onceTokens
  lastEffects : t.lastEffects = s.lastEffects

theorem Keeps.refl (s : Session) : Keeps s s := ⟨rfl, rfl, rfl, rfl, rfl⟩

theorem Keeps.symm {s t : Session} (h : Keeps s t) : Keeps t s :=
  ⟨h.rules.symm, h.options.symm, h.tokens.symm, h.onceTokens.symm, h.lastEffects.symm⟩

theorem Keeps.trans {s t u : Session} (h : Keeps s t) (k : Keeps t u) : Keeps s u :=
  ⟨k.rules.trans h.rules, k.options.trans h.options, k.tokens.trans h.tokens,
    k.onceTokens.trans h.onceTokens, k.lastEffects.trans h.lastEffects⟩

theorem change_keeps {c : Change} (h : (s.change c).value = .ok t) : Keeps s t := by
  obtain ⟨m, k, -, -, rfl⟩ := change_eq_ok.mp h
  exact ⟨rfl, rfl, rfl, rfl, rfl⟩

/-- What every change preserves, and holds at first, holds when all effects have been
interpreted. -/
theorem changeAll_induction {P : Session → Prop} {es : List Effect}
    (hstep : ∀ s c t, P s → (s.change c).value = .ok t → P t)
    (hs : P s) (h : (s.changeAll es).value = .ok t) : P t := by
  induction es generalizing s with
  | nil => rwa [changeAll_nil_eq_ok.mp h]
  | cons e es ih =>
    obtain ⟨u, hu, h⟩ := changeAll_cons_eq_ok.mp h
    refine ih ?_ h
    cases hc : Change.ofEffect? e with
    | some c =>
      rw [hc] at hu
      exact hstep s c u hs hu
    | none =>
      rw [hc] at hu
      rwa [show u = s from hu]

theorem changeAll_keeps {es : List Effect} (h : (s.changeAll es).value = .ok t) : Keeps s t :=
  changeAll_induction (P := Keeps s) (fun _ _ _ hk hc => hk.trans (change_keeps hc)) (.refl s) h

theorem interpret_keeps {es : List Effect} (h : (s.interpret es).value = .ok t) : Keeps s t := by
  obtain ⟨u, hu, rfl⟩ := interpret_eq_ok.mp h
  exact (changeAll_keeps hu).trans ⟨rfl, rfl, rfl, rfl, rfl⟩

/-! ## Firing -/

theorem fire_eq_ok {a : Activation} {es : List Effect} :
    (s.fire a).value = .ok (t, es) ↔
      ∃ r items, s.rule? a.rule = some r ∧ r.run (s.context a.binding) = .ok items ∧
        (knownEffects items).value = .ok es ∧
        (if s.options.pure then t = s.remember r a.token
        else ((s.remember r a.token).interpret es).value = .ok t) ∧
        Observer.CanTell s.options.observer (s.firedEvent r es) := by
  -- what is announced depends on the options alone, and these are kept
  have htold (r : Rule) {u : Session} (hu : u.options = s.options) :
      (Observer.CanTell u.options.observer (u.firedEvent r es) ↔
        Observer.CanTell s.options.observer (s.firedEvent r es)) := by
    rw [firedEvent, firedEvent, hu]
  unfold fire
  cases hr : s.rule? a.rule with
  | none => simp
  | some r =>
    have hp : (s.remember r a.token).options = s.options := rfl
    simp only [Traced.bind_value_eq_ok, Traced.ofExcept_value, hp]
    cases s.options.pure <;>
      simp only [Bool.false_eq_true, if_true, if_false, pure_bind, Traced.bind_value_eq_ok,
        Traced.give_bind_value, Observer.notify_eq_ok, Traced.pure_value, Except.ok.injEq,
        Prod.mk.injEq]
    · constructor
      · rintro ⟨items, hrun, es, hes, u, hu, _, ht, rfl, rfl⟩
        exact ⟨r, items, rfl, hrun, hes, hu, (htold r (interpret_keeps hu).options).mp ht⟩
      · rintro ⟨_, items, ⟨⟩, hrun, hes, hu, ht⟩
        exact ⟨items, hrun, es, hes, t, hu, (), (htold r (interpret_keeps hu).options).mpr ht,
          rfl, rfl⟩
    · constructor
      · rintro ⟨items, hrun, es, hes, _, ht, rfl, rfl⟩
        exact ⟨r, items, rfl, hrun, hes, rfl, (htold r hp).mp ht⟩
      · rintro ⟨_, items, ⟨⟩, hrun, hes, rfl, ht⟩
        exact ⟨items, hrun, es, hes, (), (htold r hp).mpr ht, rfl, rfl⟩

def withLastEffects (s : Session) (es : List Effect) : Session := { s with lastEffects := es }

theorem step_eq_ok {o : Option Activation} :
    s.step.value = .ok (t, o) ↔
      (s.pending = [] ∧ t = s ∧ o = none) ∨
      ∃ a rest u es, s.pending = a :: rest ∧ o = some a ∧
        (fire { s with pending := rest } a).value = .ok (u, es) ∧
        u.IsBuildable ∧ t = u.rebuilt.withLastEffects es := by
  unfold step
  cases hp : s.pending with
  | nil => simp [eq_comm]
  | cons a rest =>
    simp only [Traced.bind_value_eq_ok, rebuild_eq_ok, Traced.pure_value, Except.ok.injEq,
      Prod.mk.injEq, Prod.exists]
    constructor
    · rintro ⟨u, es, hu, _, ⟨hm, rfl⟩, rfl, rfl⟩
      exact .inr ⟨a, rest, u, es, rfl, rfl, hu, hm, rfl⟩
    · rintro (⟨⟨⟩, -⟩ | ⟨_, _, u, es, ⟨⟩, rfl, hu, hm, rfl⟩)
      exact ⟨u, es, hu, _, ⟨hm, rfl⟩, rfl, rfl⟩

theorem step_keeps {a : Activation} (h : s.step.value = .ok (t, some a)) :
    t.rules = s.rules ∧ t.options = s.options := by
  obtain ⟨-, -, ⟨⟩⟩ | ⟨_, rest, u, es, -, -, hf, -, rfl⟩ := step_eq_ok.mp h
  obtain ⟨r, items, -, -, -, hu, -⟩ := fire_eq_ok.mp hf
  split at hu
  · rw [hu]
    exact ⟨rfl, rfl⟩
  · exact ⟨(interpret_keeps hu).rules, (interpret_keeps hu).options⟩

end Session

end RuleEngine
