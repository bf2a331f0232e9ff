import RuleEngine.Proofs.Memory.Edit
import RuleEngine.Proofs.Session.Failure
import RuleEngine.Proofs.Session.Firing
import RuleEngine.Proofs.Value.Overlong

/-!
# What keeps a step from returning

An action that fails has an error of its own, which names the rule. But the action is only the
first stage of a step: its answer is gone through as a list, members that are no effects are dropped
with a warning that shows them, the effects are interpreted as changes of the facts, and the
observer is told of it all. Each of these stages can fail as well, and then not with the error of
the action but with the fault itself.

`Rule.Misfires` lists what goes wrong about the action and its answer, `Session.Refuses` what makes
a change of the facts impossible, and `Session.Jams` what stops a step. Matching for the agenda that
is built last is not on the list: a session whose agenda is up to date has been matched already
(`interpret_isMatchable`).

* `change_returns_iff`, `changeAll_returns_iff`: a change returns exactly if it is not refused, a
  list of effects exactly if no change in it is.
* `step_returns_iff`: a step returns exactly if its action answers with a list and nothing after it
  jams.
* `step_outcome`: running an action gives a list or the error of its rule unless it misfires, and a
  step returns or ends in the error of its action unless it jams.
-/

namespace RuleEngine

/-! ## Reading the answer of an action -/

namespace ActionResult

/-- No list can be read off the answer: going through a context, a sequence or the entry of a record
fails on the way, or a map has something under `effects` that cannot be gone through. -/
inductive IsUnreadable : ActionResult → Prop where
  | context {f : Fault} : IsUnreadable (.context (.error f))
  | sequence {f : Fault} : IsUnreadable (.sequence (.error f))
  | record {f : Fault} : IsUnreadable (.record (some (.error f)))
  | entry {es : List (Value × Value)} {v : Value} {f : Fault}
      (held : Value.entry? (.map es) "effects" = some v) (truthy : v.truthy = true)
      (fails : v.iterate = .error f) : IsUnreadable (.item (.other (.map es)))

theorem itemsOfValue_eq_error {v : Value} {f : Fault} (h : itemsOfValue v = .error f) :
    (item (.other v)).IsUnreadable := by
  unfold itemsOfValue at h
  split at h
  · rename_i es
    cases he : Value.entry? (.map es) "effects" with
    | none => simp [he, Value.truthy] at h
    | some w =>
      simp only [he, Option.getD_some] at h
      split at h
      · rename_i ht
        cases hw : w.iterate with
        | ok xs => simp [hw, Except.map] at h
        | error g => exact .entry he ht hw
      · cases h
  all_goals cases h

/-- An answer gives a list of effects exactly if it is readable. -/
theorem items_returns_iff {a : ActionResult} : (∃ is, a.items = .ok is) ↔ ¬ a.IsUnreadable := by
  constructor
  · rintro ⟨is, his⟩ h
    cases h with
    | context | sequence | record => cases his
    | entry he ht hv => simp [items, itemsOfValue, he, ht, hv, Except.map] at his
  · intro h
    cases hi : a.items with
    | ok is => exact ⟨is, rfl⟩
    | error f =>
      cases a with
      | context l => cases l with
        | ok is => cases hi
        | error g => exact absurd .context h
      | effects is => cases hi
      | sequence l => cases l with
        | ok is => cases hi
        | error g => exact absurd .sequence h
      | record o => cases o with
        | none => cases hi
        | some l => cases l with
          | ok is => cases hi
          | error g => exact absurd .record h
      | item i => cases i with
        | effect e => cases hi
        | other v => exact absurd (itemsOfValue_eq_error hi) h

end ActionResult

/-- The effects of a list are those of its members that are effects. -/
theorem Item.mem_effects {items : List Item} {e : Effect} :
    e ∈ items.filterMap Item.effect? ↔ .effect e ∈ items := by
  rw [List.mem_filterMap]
  constructor
  · rintro ⟨i, hi, he⟩
    cases i with
    | effect => cases he; exact hi
    | other => cases he
  · exact fun h => ⟨.effect e, h, rfl⟩

namespace Rule

variable {r : Rule} {c : ActionContext}

/-- The action fails on something that cannot be written into the error of the rule, or it answers
with something that no list of effects can be read from. -/
inductive Misfires (r : Rule) (c : ActionContext) : Prop where
  | unwritable {f : Fault} (fails : r.action c = .error f) (long : f.isOverlong = true)
  | unreadable {a : ActionResult} (answers : r.action c = .ok a) (h : a.IsUnreadable)

theorem run_of_misfires (h : r.Misfires c) : ∃ f, r.run c = .error (.fault f) := by
  cases h with
  | unwritable fails long => exact ⟨.unwritableInteger, by simp only [run, fails, long, if_true]⟩
  | @unreadable a answers h =>
    cases hi : a.items with
    | ok is => exact absurd h (ActionResult.items_returns_iff.mp ⟨is, hi⟩)
    | error f => exact ⟨f, by simp only [run, answers, hi, Fault.lift]⟩

/-- An action that answers gives a list of effects, unless it misfires. -/
theorem run_of_answer {a : ActionResult} (h : ¬ r.Misfires c) (ha : r.action c = .ok a) :
    ∃ items, r.run c = .ok items := by
  obtain ⟨is, his⟩ := ActionResult.items_returns_iff.mpr fun hu => h (.unreadable ha hu)
  exact ⟨is, by simp only [run, ha, his, Fault.lift]⟩

/-- An action that fails gives the error of its rule, unless it misfires. -/
theorem run_of_failure {f : Fault} (h : ¬ r.Misfires c) (hf : r.action c = .error f) :
    r.run c = .error (.action r.name f) := by
  have hshort : f.isOverlong = false := Bool.eq_false_iff.mpr fun hl => h (.unwritable hf hl)
  simp [run, hf, hshort]

end Rule

namespace Session

variable {s t : Session}

/-! ## Changes that cannot be made -/

/-- What makes a change of the facts impossible: the identity it is aimed at cannot be found or
hashed, the key it changes something under cannot be written, the observer cannot be told of the
change, or over the changed facts the agenda cannot be built. -/
inductive Refuses (s : Session) (c : Change) : Prop where
  | lost {f : Fault} (aim : c.aim s.memory = .error f)
  | unhashable {k : FactKey} {f : Fault} (aim : c.aim s.memory = .ok k)
      (hash : k.checkHashable = .error f)
  | unwritable {m : Memory} {k : FactKey} (run : c.run s.memory = .ok (m, some k))
      (long : k.value.isOverlongText = true)
  | unheard {m : Memory} {k : FactKey} {md : List (Value × Value)}
      (metadata : c.metadata s.memory = .ok md) (run : c.run s.memory = .ok (m, some k))
      (h : ¬ Observer.CanTell s.options.observer (c.event md k))
  | unbuildable {m : Memory} {k : Option FactKey} (run : c.run s.memory = .ok (m, k))
      (h : ¬ (s.changed c m k).IsBuildable)

/-- What a change announces can be read off the memory where the change can be made. -/
theorem metadata_returns {c : Change} {k : FactKey} (haim : c.aim s.memory = .ok k)
    (hhash : k.checkHashable = .ok ()) : ∃ md, c.metadata s.memory = .ok md := by
  cases c with
  | upsert fact =>
    have hkey : s.memory.hasKey k = .ok (Assoc.contains k s.memory.entries) :=
      Memory.hasKey_eq_ok.mpr ⟨hhash, Memory.holds_iff.symm⟩
    have hcontains : s.memory.contains fact = .ok (Assoc.contains k s.memory.entries) :=
      bind_eq_ok.mpr ⟨k, haim, hkey⟩
    exact ⟨_, bind_eq_ok.mpr ⟨_, hcontains, rfl⟩⟩
  | assert | retract => exact ⟨[], rfl⟩

/-- A change returns exactly if the session does not refuse it. -/
theorem change_returns_iff {c : Change} : (∃ t, (s.change c).value = .ok t) ↔ ¬ s.Refuses c := by
  constructor
  · rintro ⟨t, ht⟩ h
    obtain ⟨m, k, ⟨md, hmd, hrun, hkey⟩, hbuild, -⟩ := change_eq_ok.mp ht
    obtain ⟨k', haim, hhash, -⟩ := Memory.run_edit hrun
    cases h with
    | lost h => cases haim.symm.trans h
    | unhashable h he =>
      obtain rfl := Except.ok.inj (haim.symm.trans h)
      cases hhash.symm.trans he
    | unwritable h hl =>
      cases hrun.symm.trans h
      rw [Value.checkText_eq_ok.mp (hkey _ rfl).written] at hl
      cases hl
    | unheard hmd' h hn =>
      cases hmd.symm.trans hmd'
      cases hrun.symm.trans h
      exact hn (hkey _ rfl).told
    | unbuildable h hn =>
      cases hrun.symm.trans h
      exact hn hbuild
  · intro h
    cases haim : c.aim s.memory with
    | error f => exact absurd (.lost haim) h
    | ok k =>
      cases hhash : k.checkHashable with
      | error f => exact absurd (.unhashable haim hhash) h
      | ok u =>
        obtain ⟨m, changed, hrun⟩ := Memory.run_returns haim hhash
        obtain ⟨md, hmd⟩ := metadata_returns haim hhash
        have hkey : ∀ key ∈ changed, s.CanAnnounce c md key := by
          rintro key rfl
          refine ⟨Value.checkText_eq_ok.mpr ?_, ?_⟩
          · exact Bool.eq_false_iff.mpr fun hl => h (.unwritable hrun hl)
          · exact Classical.not_not.mp fun hn => h (.unheard hmd hrun hn)
        have hbuild : (s.changed c m changed).IsBuildable :=
          Classical.not_not.mp fun hn => h (.unbuildable hrun hn)
        exact ⟨_, change_eq_ok.mpr ⟨m, changed, ⟨md, hmd, hrun, hkey⟩, hbuild, rfl⟩⟩

/-- Some effect asks for a change that the session refuses by then. -/
inductive Blocks : Session → List Effect → Prop where
  | here {s : Session} {e : Effect} {es : List Effect} {c : Change}
      (asks : Change.ofEffect? e = some c) (refuses : s.Refuses c) : Blocks s (e :: es)
  | later {s u : Session} {e : Effect} {es : List Effect} (makes : (s.changeAll [e]).value = .ok u)
      (blocks : Blocks u es) : Blocks s (e :: es)

theorem changeAll_singleton {e : Effect} {c : Change} (h : Change.ofEffect? e = some c) :
    s.changeAll [e] = s.change c := by
  rw [changeAll, h]
  exact bind_pure (s.change c)

theorem changeAll_cons (s : Session) (e : Effect) (es : List Effect) :
    s.changeAll (e :: es) = s.changeAll [e] >>= fun u => u.changeAll es := by
  cases hc : Change.ofEffect? e with
  | some c => rw [changeAll_singleton hc, changeAll, hc]
  | none =>
    rw [changeAll, changeAll, hc]
    simp only [pure_bind, changeAll]

/-- Effects can be interpreted one after the other exactly if no change among them is refused. -/
theorem changeAll_returns_iff {es : List Effect} :
    (∃ t, (s.changeAll es).value = .ok t) ↔ ¬ s.Blocks es := by
  induction es generalizing s with
  | nil => exact iff_of_true ⟨s, changeAll_nil_eq_ok.mpr rfl⟩ (fun h => nomatch h)
  | cons e es ih =>
    constructor
    · rintro ⟨t, ht⟩ h
      rw [changeAll_cons] at ht
      obtain ⟨u, hu, ht⟩ := Traced.bind_value_eq_ok.mp ht
      cases h with
      | here asks refuses =>
        rw [changeAll_singleton asks] at hu
        exact change_returns_iff.mp ⟨u, hu⟩ refuses
      | later makes blocks =>
        obtain rfl := Except.ok.inj (hu.symm.trans makes)
        exact ih.mp ⟨t, ht⟩ blocks
    · intro h
      have hone : ∃ u, (s.changeAll [e]).value = .ok u := by
        cases hc : Change.ofEffect? e with
        | none => exact ⟨s, changeAll_cons_eq_ok.mpr ⟨s, by rw [hc], rfl⟩⟩
        | some c =>
          rw [changeAll_singleton hc]
          exact change_returns_iff.mpr fun hr => h (.here hc hr)
      obtain ⟨u, hu⟩ := hone
      obtain ⟨t, ht⟩ := ih.mpr fun hb => h (.later hu hb)
      rw [changeAll_cons]
      exact ⟨t, Traced.bind_value_eq_ok.mpr ⟨u, hu, ht⟩⟩

/-! ## What comes of effects -/

/-- What is kept of an effect list, and when what is dropped can be shown. -/
theorem knownEffects_eq_ok {items : List Item} {es : List Effect} :
    (knownEffects items).value = .ok es ↔
      (∀ v, .other v ∈ items → v.isOverlong = false) ∧ es = items.filterMap Item.effect? := by
  induction items generalizing es with
  | nil =>
    rw [knownEffects, Traced.pure_value, Except.ok.injEq, eq_comm]
    exact ⟨fun h => ⟨fun _ hv => absurd hv List.not_mem_nil, h⟩, fun h => h.2⟩
  | cons i items ih =>
    cases i with
    | effect e =>
      simp only [knownEffects, Traced.bind_value_eq_ok, ih, Traced.pure_value, Except.ok.injEq,
        List.mem_cons, reduceCtorEq, false_or]
      constructor
      · rintro ⟨_, ⟨h, rfl⟩, he⟩
        exact ⟨h, he.symm⟩
      · rintro ⟨h, he⟩
        exact ⟨_, ⟨h, rfl⟩, he.symm⟩
    | other v =>
      simp only [knownEffects, Traced.bind_value_eq_ok, Traced.ofExcept_value, lift_eq_ok,
        Value.checkShown_eq_ok, Traced.give_bind_value, ih, exists_const, List.mem_cons,
        Item.other.injEq, forall_eq_or_imp]
      exact and_assoc.symm

theorem changeAll_isMatchable {es : List Effect} (hs : s.IsMatchable)
    (h : (s.changeAll es).value = .ok t) : t.IsMatchable :=
  changeAll_induction (P := IsMatchable) (fun _ _ _ _ hc => (change_isUpToDate hc).1) hs h

/-- After effects have been interpreted every rule can be matched, so the agenda can be built. -/
theorem interpret_isMatchable {es : List Effect} (hs : s.IsMatchable)
    (h : (s.interpret es).value = .ok t) : t.IsMatchable := by
  obtain ⟨u, hu, rfl⟩ := interpret_eq_ok.mp h
  have hmatch : u.IsMatchable := changeAll_isMatchable hs hu
  exact hmatch

/-! ## One step -/

def taken (s : Session) : Session := { s with pending := s.pending.tail }

/-- The next step fires an activation by calling the action of a rule in a context. -/
structure Calls (s : Session) (a : Activation) (r : Rule) (c : ActionContext) : Prop where
  first : s.pending.head? = some a
  rule : s.rule? a.rule = some r
  context : c = s.taken.context a.binding

/-- What a firing that answered these effects leaves behind: it is remembered and, unless the
session is pure, the effects are interpreted. -/
def Leaves (s : Session) (a : Activation) (r : Rule) (es : List Effect) (u : Session) : Prop :=
  if s.options.pure then u = s.taken.remember r a.token
  else ((s.taken.remember r a.token).interpret es).value = .ok u

/-- What stops a step other than a failing action: the action misfires, a member that is dropped
from its answer cannot be shown, a change is refused, or the observer cannot be told of the firing
or of the agenda after it. -/
inductive Jams (s : Session) : Prop where
  | misfires {a : Activation} {r : Rule} {c : ActionContext} (calls : s.Calls a r c)
      (h : r.Misfires c)
  | drops {a : Activation} {r : Rule} {c : ActionContext} {items : List Item} {v : Value}
      (calls : s.Calls a r c) (run : r.run c = .ok items) (mem : .other v ∈ items)
      (long : v.isOverlong = true)
  | blocks {a : Activation} {r : Rule} {c : ActionContext} {items : List Item}
      (calls : s.Calls a r c) (run : r.run c = .ok items) (impure : s.options.pure = false)
      (h : (s.taken.remember r a.token).Blocks (items.filterMap Item.effect?))
  | unheard {a : Activation} {r : Rule} {c : ActionContext} {items : List Item}
      (calls : s.Calls a r c) (run : r.run c = .ok items)
      (h : ¬ Observer.CanTell s.options.observer
        (s.firedEvent r (items.filterMap Item.effect?)))
  | untold {a : Activation} {r : Rule} {c : ActionContext} {items : List Item} {u : Session}
      (calls : s.Calls a r c) (run : r.run c = .ok items)
      (leaves : s.Leaves a r (items.filterMap Item.effect?) u)
      (h : ¬ Observer.CanTell s.options.observer u.rebuilt.builtEvent)

variable {a a' : Activation} {r r' : Rule} {c c' : ActionContext} {items : List Item}

theorem Calls.eq (h : s.Calls a r c) (h' : s.Calls a' r' c') : a = a' ∧ r = r' ∧ c = c' := by
  obtain rfl := Option.some.inj (h.first.symm.trans h'.first)
  exact ⟨rfl, Option.some.inj (h.rule.symm.trans h'.rule), h.context.trans h'.context.symm⟩

theorem Calls.mem_rules (h : s.Calls a r c) : r ∈ s.rules := List.mem_of_find?_eq_some h.rule

theorem Calls.pending (h : s.Calls a r c) : s.pending = a :: s.pending.tail :=
  List.eq_cons_of_mem_head? h.first

theorem Calls.step (h : s.Calls a r c) : s.step = (do
    let (u, effects) ← s.taken.fire a
    let u ← u.rebuild
    return ({ u with lastEffects := effects }, some a)) := by
  unfold Session.step
  rw [h.pending]
  rfl

theorem Calls.fire (h : s.Calls a r c) {e : Error} (hrun : r.run c = .error e) :
    (s.taken.fire a).value = .error e := by
  have hr : s.taken.rule? a.rule = some r := h.rule
  unfold Session.fire
  rw [hr, ← h.context]
  exact Traced.bind_value_eq_error.mpr (.inl hrun)

theorem Calls.step_eq_error (h : s.Calls a r c) {e : Error} (hrun : r.run c = .error e) :
    s.step.value = .error e := by
  rw [h.step]
  exact Traced.bind_value_eq_error.mpr (.inl (h.fire hrun))

/-- Every step of a reachable session that has anything pending calls an action. -/
theorem Reachable.calls (h : s.Reachable) (hp : s.pending.head? = some a) :
    ∃ r, s.Calls a r (s.taken.context a.binding) := by
  obtain ⟨s₀, as, h₀, h⟩ := h
  have hrec := h.recorded h₀
  have ha : a ∈ s.freshAgenda := by
    rw [← hrec.upToDate.2]
    exact List.mem_of_mem_head? hp
  obtain ⟨⟨r, hr, hact⟩, -⟩ := Agenda.mem_build.mp ha
  obtain ⟨b, -, rfl⟩ := Rule.mem_activations.mp hact
  exact ⟨r, hp, rule?_eq_some hrec.names hr, rfl⟩

theorem Leaves.options {es : List Effect} {u : Session} (h : s.Leaves a r es u) :
    u.options = s.options := by
  unfold Leaves at h
  split at h
  · rw [h]
    rfl
  · exact (interpret_keeps h).options

theorem Leaves.isMatchable {es : List Effect} {u : Session} (hs : s.IsMatchable)
    (h : s.Leaves a r es u) : u.IsMatchable := by
  have hmatch : (s.taken.remember r a.token).IsMatchable := hs
  unfold Leaves at h
  split at h
  · rw [h]
    exact hmatch
  · exact interpret_isMatchable hmatch h

theorem Leaves.eq {es : List Effect} {u v : Session} (h : s.Leaves a r es u)
    (h' : s.Leaves a r es v) : u = v := by
  unfold Leaves at h h'
  split at h
  · rename_i hpure
    rw [if_pos hpure] at h'
    exact h.trans h'.symm
  · rename_i hpure
    rw [if_neg hpure] at h'
    exact Except.ok.inj (h.symm.trans h')

theorem exists_leaves_iff {es : List Effect} : (∃ u, s.Leaves a r es u) ↔
    (s.options.pure = false → ¬ (s.taken.remember r a.token).Blocks es) := by
  unfold Leaves
  cases s.options.pure with
  | true => exact iff_of_true ⟨_, rfl⟩ nofun
  | false =>
    simp only [Bool.false_eq_true, if_false, forall_const, ← changeAll_returns_iff, interpret_eq_ok]
    exact ⟨fun ⟨_, v, hv, _⟩ => ⟨v, hv⟩, fun ⟨v, hv⟩ => ⟨_, v, hv, rfl⟩⟩

/-- What a step makes of the memory: it calls an action, and unless the session is pure the effects
are interpreted after the firing has been remembered. -/
theorem step_calls (h : s.step.value = .ok (t, some a)) :
    ∃ r c items, s.Calls a r c ∧ r.run c = .ok items ∧ ∃ u, t.memory = u.memory ∧
      (s.options.pure = true ∧ u = s.taken.remember r a.token ∨ s.options.pure = false ∧
        ((s.taken.remember r a.token).changeAll (items.filterMap Item.effect?)).value = .ok u) := by
  obtain ⟨-, -, ⟨⟩⟩ | ⟨_, rest, u, es, hp, ⟨⟩, hf, -, rfl⟩ := step_eq_ok.mp h
  obtain ⟨r, items, hr, hrun, hes, hu, -⟩ := fire_eq_ok.mp hf
  obtain ⟨-, rfl⟩ := knownEffects_eq_ok.mp hes
  have htaken : { s with pending := rest } = s.taken := by rw [taken, hp]; rfl
  rw [htaken] at hrun hu
  refine ⟨r, _, items, ⟨by rw [hp]; rfl, hr, rfl⟩, hrun, ?_⟩
  have hsame : s.taken.options = s.options := rfl
  rw [hsame] at hu
  cases hpure : s.options.pure with
  | true =>
    rw [if_pos hpure] at hu
    exact ⟨u, rfl, .inl ⟨rfl, hu⟩⟩
  | false =>
    rw [if_neg (by simp [hpure])] at hu
    obtain ⟨v, hv, rfl⟩ := interpret_eq_ok.mp hu
    exact ⟨v, rfl, .inr ⟨rfl, hv⟩⟩

/-- Where an action has answered with a list of effects, the firing returns exactly if what has to
be dropped can be shown, something is left behind, and the observer can be told. -/
theorem Calls.fire_eq_ok (hc : s.Calls a r c) (hrun : r.run c = .ok items) {u : Session}
    {es : List Effect} : (s.taken.fire a).value = .ok (u, es) ↔
      (∀ v, .other v ∈ items → v.isOverlong = false) ∧ es = items.filterMap Item.effect? ∧
        s.Leaves a r es u ∧ Observer.CanTell s.options.observer (s.firedEvent r es) := by
  rw [Session.fire_eq_ok]
  constructor
  · rintro ⟨r', is, hr, his, hes, hu, htold⟩
    obtain rfl := Option.some.inj (hc.rule.symm.trans hr)
    rw [← hc.context] at his
    obtain rfl := Except.ok.inj (hrun.symm.trans his)
    obtain ⟨hshown, rfl⟩ := knownEffects_eq_ok.mp hes
    exact ⟨hshown, rfl, hu, htold⟩
  · rintro ⟨hshown, rfl, hu, htold⟩
    exact ⟨r, items, hc.rule, by rw [← hc.context]; exact hrun,
      knownEffects_eq_ok.mpr ⟨hshown, rfl⟩, hu, htold⟩

/-- Where an action has answered with a list of effects, the step returns exactly if what has to be
dropped can be shown, the firing leaves something behind, and the observer can be told of the firing
and of the agenda after it. -/
theorem step_returns_iff (hs : s.IsMatchable) (hc : s.Calls a r c) (hrun : r.run c = .ok items) :
    (∃ t o, s.step.value = .ok (t, o)) ↔
      (∀ v, .other v ∈ items → v.isOverlong = false) ∧
        ∃ u, s.Leaves a r (items.filterMap Item.effect?) u ∧
          Observer.CanTell s.options.observer (s.firedEvent r (items.filterMap Item.effect?)) ∧
          Observer.CanTell s.options.observer u.rebuilt.builtEvent := by
  constructor
  · rintro ⟨t, o, ht⟩
    obtain ⟨hp, -⟩ | ⟨a', rest, u, es, hp, rfl, hf, hbuild, -⟩ := step_eq_ok.mp ht
    · cases hp.symm.trans hc.pending
    · obtain ⟨rfl, hrest⟩ := List.cons.inj (hp.symm.trans hc.pending)
      have htaken : { s with pending := rest } = s.taken := by rw [taken, ← hrest]
      rw [htaken] at hf
      obtain ⟨hshown, rfl, hleaves, htold⟩ := (hc.fire_eq_ok hrun).mp hf
      refine ⟨hshown, u, hleaves, htold, ?_⟩
      rw [← hleaves.options]
      exact hbuild.told
  · rintro ⟨hshown, u, hleaves, htold, hagenda⟩
    have hfire := (hc.fire_eq_ok hrun).mpr ⟨hshown, rfl, hleaves, htold⟩
    have hbuild : u.IsBuildable := by
      refine ⟨hleaves.isMatchable hs, ?_⟩
      rw [hleaves.options]
      exact hagenda
    exact ⟨_, _, step_eq_ok.mpr (.inr ⟨a, _, u, _, hc.pending, rfl, hfire, hbuild, rfl⟩)⟩

/-- Where an action has answered with a list of effects, a step that does not return ends in a
fault. -/
theorem Calls.step_eq_fault (hc : s.Calls a r c) (hrun : r.run c = .ok items)
    (h : ¬ ∃ t o, s.step.value = .ok (t, o)) : ∃ f, s.step.value = .error (.fault f) := by
  rw [hc.context] at hrun
  cases hv : s.step.value with
  | ok x => exact absurd ⟨x.1, x.2, hv⟩ h
  | error e =>
    obtain ⟨f, rfl⟩ := step_failsByFault hc.pending hc.rule hrun e hv
    exact ⟨f, rfl⟩

/-- A step that jams ends in a fault. -/
theorem step_of_jams (hs : s.IsMatchable) (h : s.Jams) : ∃ f, s.step.value = .error (.fault f) := by
  cases h with
  | misfires calls h =>
    obtain ⟨f, hf⟩ := Rule.run_of_misfires h
    exact ⟨f, calls.step_eq_error hf⟩
  | drops calls run mem long =>
    refine calls.step_eq_fault run fun hr => ?_
    rw [((step_returns_iff hs calls run).mp hr).1 _ mem] at long
    cases long
  | blocks calls run impure h =>
    refine calls.step_eq_fault run fun hr => ?_
    obtain ⟨-, u, hleaves, -⟩ := (step_returns_iff hs calls run).mp hr
    exact exists_leaves_iff.mp ⟨u, hleaves⟩ impure h
  | unheard calls run h =>
    refine calls.step_eq_fault run fun hr => ?_
    obtain ⟨-, _, -, htold, -⟩ := (step_returns_iff hs calls run).mp hr
    exact h htold
  | untold calls run leaves h =>
    refine calls.step_eq_fault run fun hr => ?_
    obtain ⟨-, u, hleaves, -, hagenda⟩ := (step_returns_iff hs calls run).mp hr
    rw [hleaves.eq leaves] at hagenda
    exact h hagenda

/-- A step that does not jam returns if its action answers. -/
theorem step_of_answer (hs : s.IsMatchable) (h : ¬ s.Jams) (hc : s.Calls a r c) {x : ActionResult}
    (hx : r.action c = .ok x) : ∃ t o, s.step.value = .ok (t, o) := by
  obtain ⟨items, hrun⟩ := Rule.run_of_answer (fun hm => h (.misfires hc hm)) hx
  obtain ⟨u, hleaves⟩ := exists_leaves_iff.mpr fun hpure hb => h (.blocks hc hrun hpure hb)
  refine (step_returns_iff hs hc hrun).mpr ⟨fun v hv => ?_, u, hleaves, ?_, ?_⟩
  · exact Bool.eq_false_iff.mpr fun hl => h (.drops hc hrun hv hl)
  · exact Classical.not_not.mp fun hn => h (.unheard hc hrun hn)
  · exact Classical.not_not.mp fun hn => h (.untold hc hrun hleaves hn)

theorem IsNew.assertFact {fact : Value} (h : IsNew s) (ht : (s.assertFact fact).value = .ok t) :
    t.Reachable ∧ t.rules = s.rules ∧ t.options = s.options ∧ t.facts = [fact] := by
  have hperform : (s.perform (.assertFact fact)).value = .ok (t, []) :=
    Traced.bind_value_eq_ok.mpr ⟨t, ht, rfl⟩
  have hkeeps := change_keeps ht
  refine ⟨⟨s, _, h, .next (.refl s) hperform⟩, hkeeps.rules, hkeeps.options, ?_⟩
  have hempty : s.memory.entries = [] := by
    obtain ⟨hv, -⟩ := h.eq_initial
    rw [hv]
    rfl
  obtain ⟨m, k, ⟨_, -, hrun, -⟩, -, rfl⟩ := change_eq_ok.mp ht
  obtain ⟨_, -, -, hedit⟩ := Memory.run_edit hrun
  change m.entries.map (·.2) = [fact]
  cases hedit with
  | known holds =>
    obtain ⟨e, he, -⟩ := holds
    rw [hempty] at he
    cases he
  | asserted => rw [hempty]; rfl

def Sample.onGuest (action : Action) : Rule := { Sample.welcome with action }

def Sample.hall (action : Action) : Session := ⟨.initial .default, [Sample.onGuest action]⟩

theorem Sample.hall_isNew (action : Action) : IsNew (Sample.hall action) :=
  ⟨fun _ => none, .rule (Sample.onGuest action), .value .none, none, [], rfl⟩

def Sample.arrival (action : Action) : Traced Session :=
  (Sample.hall action).assertFact (Sample.fact "guest" (.int 1))

/-- After a guest has come to the hall, the rule is about to be called. -/
theorem Sample.arrival_calls (action : Action)
    (h : (Sample.arrival action).value.toOption.map (·.pending.length) = some 1) :
    ∃ s a c, (Sample.arrival action).value = .ok s ∧ s.Reachable ∧
      s.rules = [Sample.onGuest action] ∧ s.options = .default ∧
      s.facts = [Sample.fact "guest" (.int 1)] ∧ s.Calls a (Sample.onGuest action) c := by
  simp only [Option.map_eq_some_iff, toOption_eq_some] at h
  obtain ⟨s, harrival, hpend⟩ := h
  obtain ⟨hs, hrules, hoptions, hfacts⟩ := (Sample.hall_isNew action).assertFact harrival
  cases hp : s.pending with
  | nil => simp [hp] at hpend
  | cons a rest =>
    obtain ⟨q, hq⟩ := hs.calls (a := a) (by rw [hp]; rfl)
    have hmem := hq.mem_rules
    rw [hrules] at hmem
    obtain rfl : q = Sample.onGuest action := List.mem_singleton.mp hmem
    exact ⟨s, a, _, harrival, hs, hrules, hoptions, hfacts, hq⟩

end Session

end RuleEngine
