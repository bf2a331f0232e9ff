import RuleEngine.Proofs.Agenda.Rearranged
import RuleEngine.Proofs.Memory.Undo
import RuleEngine.Proofs.Session.Failure
import RuleEngine.Proofs.Session.Monotone

/-!
# Facts asserted in another order

Facts of different new identities can be asserted in any order. Each of them only appends an entry
to memory and has the agenda built anew, so what a whole list of assertions comes to can be written
down at once (`Session.extended`): the entries in the order of the assertions, the agenda over them
all, and two counters. It returns exactly if every key can be written and every rule can be matched
over all the facts (`asserts_eq_ok`), for fewer facts can be matched if more can; and it fails in
one way only. None of this depends on the order, and the agendas are those of rearranged facts. An
observer may well fail after some facts only; what is said of failures is said of observers that
can be told of everything.

* `asserts_commute`: two orders that return end in sessions that hold the same, and they return
  alike.
-/

namespace RuleEngine

/-- The identities of the two facts, if they have any, are different. -/
def Fact.Differ (f g : Value) : Prop :=
  ∀ k l, Fact.key f = .ok k → Fact.key g = .ok l → (k == l) = false ∧ (l == k) = false

theorem Fact.Differ.symm {f g : Value} (h : Fact.Differ f g) : Fact.Differ g f :=
  fun k l hk hl => (h l k hl hk).symm

namespace Session

open Traced (Agree)

variable {s t : Session} {f : Value} {k : FactKey} {es ds : List (FactKey × Value)}
variable {fs gs : List Value}

/-- The session after facts of new identities have been asserted. -/
def extended (s : Session) (es : List (FactKey × Value)) : Session :=
  { s with
    memory := ⟨s.memory.entries ++ es⟩
    pending := Agenda.build s.rules ⟨s.memory.entries ++ es⟩ s.tokens s.onceTokens s.options.recency
    counters := { s.counters with
      asserted := s.counters.asserted + es.length
      agendaBuilds := s.counters.agendaBuilds + es.length } }

theorem extended_nil (h : s.IsUpToDate) : s.extended [] = s := by
  have hpending : s.pending =
      Agenda.build s.rules s.memory s.tokens s.onceTokens s.options.recency := h.2
  unfold extended
  rw [List.append_nil, ← hpending]
  rfl

theorem extended_extended : (s.extended es).extended ds = s.extended (es ++ ds) := by
  unfold extended
  simp only [List.append_assoc, List.length_append, Nat.add_assoc]

theorem extended_isUpToDate (h : (s.extended es).IsMatchable) : (s.extended es).IsUpToDate :=
  ⟨h, rfl⟩

theorem extended_facts : (s.extended es).memory.facts = s.memory.facts ++ es.map (·.2) :=
  List.map_append

theorem extended_isMatchable (h : (s.extended (es ++ ds)).IsMatchable) :
    (s.extended es).IsMatchable := by
  intro r hr
  refine (h r hr).of_sublist ?_
  rw [extended_facts, extended_facts, List.map_append]
  exact (List.sublist_append_left _ _).append_left _

/-! ## One assertion -/

/-- Asserting a fact of a new identity, where it returns, adds its entry. -/
theorem assertFact_extended (hkey : Fact.key f = .ok k) (hnew : s.memory.hasKey k = .ok false)
    (h : (s.assertFact f).value = .ok t) :
    k.value.checkText = .ok () ∧ (s.extended [(k, f)]).IsMatchable ∧ t = s.extended [(k, f)] := by
  obtain ⟨m, l, ⟨md, -, hrun, hl⟩, hb, rfl⟩ := change_eq_ok.mp h
  rw [show Change.run s.memory (.assert f) = .ok (⟨s.memory.entries ++ [(k, f)]⟩, some k) from
    Memory.assert_new hkey hnew, Except.ok.injEq, Prod.mk.injEq] at hrun
  obtain ⟨rfl, rfl⟩ := hrun
  exact ⟨(hl k rfl).written, hb.matchable, rfl⟩

/-- Where the observer can be told of everything, asserting a fact of a new identity returns exactly
if its key can be written and the rules can be matched with it. -/
theorem assertFact_eq_ok (ho : Observer.FailsWritably s.options.observer)
    (hkey : Fact.key f = .ok k) (hnew : s.memory.hasKey k = .ok false) :
    (s.assertFact f).value = .ok t ↔ k.value.checkText = .ok () ∧
      (s.extended [(k, f)]).IsMatchable ∧ t = s.extended [(k, f)] := by
  refine ⟨assertFact_extended hkey hnew, ?_⟩
  rintro ⟨hk, hm, rfl⟩
  refine change_eq_ok.mpr ⟨_, some k, ⟨[], rfl, Memory.assert_new hkey hnew, ?_⟩, ⟨hm, ho _⟩, rfl⟩
  rintro _ ⟨⟩
  exact ⟨hk, ho _⟩

theorem announce_eq_error {c : Change} {md : List (Value × Value)} {e : Error}
    (h : (s.announce c md k).value = .error e) : e = .fault .unwritableInteger := by
  rcases Traced.bind_value_eq_error.mp h with h | ⟨_, -, h⟩
  · obtain ⟨g, hg, rfl⟩ := lift_eq_error.mp h
    rw [(checkLength_eq_error.mp hg).2]
  · rcases Traced.bind_value_eq_error.mp h with h | ⟨_, -, ⟨⟩⟩
    exact Observer.notify_eq_error h

theorem assertFact_eq_error (hkey : Fact.key f = .ok k) (hnew : s.memory.hasKey k = .ok false)
    {e : Error} (h : (s.assertFact f).value = .error e) : e = .fault .unwritableInteger := by
  have hrun : Fault.lift (Change.run s.memory (.assert f)) =
      .ok (⟨s.memory.entries ++ [(k, f)]⟩, some k) := lift_eq_ok.mpr (Memory.assert_new hkey hnew)
  obtain hmetadata | ⟨md, -, h⟩ := Traced.bind_value_eq_error.mp h
  · cases hmetadata
  rw [hrun, Traced.bind_value_eq_error] at h
  obtain hok | ⟨_, ⟨⟩, h⟩ := h
  · cases hok
  rcases Traced.bind_value_eq_error.mp h with h | ⟨_, -, h⟩
  · exact announce_eq_error h
  · exact rebuild_eq_error h

/-! ## A list of assertions -/

/-- A new identity is still new once facts of other identities have been asserted. -/
theorem hasKey_extended {e d : FactKey × Value} (h : s.memory.hasKey e.1 = .ok false)
    (hne : (d.1 == e.1) = false) : (s.extended [d]).memory.hasKey e.1 = .ok false := by
  rw [Memory.hasKey_eq_ok] at h ⊢
  refine ⟨h.1, ?_⟩
  have hheld : (s.extended [d]).memory.Holds e.1 ↔ s.memory.Holds e.1 := by
    rw [show (s.extended [d]).memory = ⟨s.memory.entries ++ [(d.1, d.2)]⟩ from rfl,
      Memory.holds_append, hne]
    simp
  rw [hheld]
  exact h.2

/-- The identities that come after the first are still new once the first fact is asserted. -/
theorem asserts_next {e : FactKey × Value}
    (hnew : ∀ d ∈ e :: es, s.memory.hasKey d.1 = .ok false)
    (hd : (e :: es).Pairwise fun d e => (d.1 == e.1) = false) :
    ∀ d ∈ es, (s.extended [e]).memory.hasKey d.1 = .ok false :=
  fun d hmem =>
    hasKey_extended (hnew d (List.mem_cons_of_mem e hmem)) (List.rel_of_pairwise_cons hd hmem)

section

variable (hkeys : ∀ e ∈ es, Fact.key e.2 = .ok e.1)
variable (hnew : ∀ e ∈ es, s.memory.hasKey e.1 = .ok false)
variable (hd : es.Pairwise fun d e => (d.1 == e.1) = false)

include hkeys hnew hd

/-- Where facts of different new identities can be asserted one after the other, their keys can be
written, every rule can be matched over all facts together, and it is known what is held then. -/
theorem asserts_extended (hs : s.IsUpToDate)
    (h : ((es.map (·.2)).foldlM assertFact s).value = .ok t) :
    (∀ e ∈ es, e.1.value.checkText = .ok ()) ∧ (s.extended es).IsMatchable ∧
      t = s.extended es := by
  induction es generalizing s with
  | nil =>
    obtain rfl := Except.ok.inj h
    rw [extended_nil hs]
    exact ⟨nofun, hs.1, rfl⟩
  | cons e es ih =>
    obtain ⟨hkey, hkeys⟩ := List.forall_mem_cons.mp hkeys
    rw [List.map_cons, List.foldlM_cons, Traced.bind_value_eq_ok] at h
    obtain ⟨u, hu, h⟩ := h
    obtain ⟨hk, hm, rfl⟩ := assertFact_extended hkey (hnew e List.mem_cons_self) hu
    obtain ⟨hks, hmatch, rfl⟩ := ih hkeys (asserts_next hnew hd) hd.tail (extended_isUpToDate hm) h
    rw [extended_extended, List.singleton_append] at hmatch ⊢
    exact ⟨List.forall_mem_cons.mpr ⟨hk, hks⟩, hmatch, rfl⟩

/-- Facts of different new identities can be asserted exactly if their keys can be written and every
rule can be matched over all facts together. -/
theorem asserts_eq_ok (hs : s.IsUpToDate) (ho : Observer.FailsWritably s.options.observer) :
    ((es.map (·.2)).foldlM assertFact s).value = .ok t ↔
      (∀ e ∈ es, e.1.value.checkText = .ok ()) ∧ (s.extended es).IsMatchable ∧
        t = s.extended es := by
  refine ⟨asserts_extended hkeys hnew hd hs, ?_⟩
  induction es generalizing s with
  | nil =>
    rintro ⟨-, -, rfl⟩
    rw [extended_nil hs]
    rfl
  | cons e es ih =>
    intro ⟨hks, hmatch, h⟩
    obtain ⟨hkey, hkeys⟩ := List.forall_mem_cons.mp hkeys
    obtain ⟨hk, hks⟩ := List.forall_mem_cons.mp hks
    rw [← List.singleton_append] at hmatch h
    have hm : (s.extended [e]).IsMatchable := extended_isMatchable hmatch
    have hfirst := (assertFact_eq_ok ho hkey (hnew e List.mem_cons_self)).mpr ⟨hk, hm, rfl⟩
    rw [← extended_extended] at hmatch h
    rw [List.map_cons, List.foldlM_cons, Traced.bind_value_eq_ok]
    exact ⟨_, hfirst, ih hkeys (asserts_next hnew hd) hd.tail (extended_isUpToDate hm) ho
      ⟨hks, hmatch, h⟩⟩

theorem asserts_eq_error {e : Error} (hs : s.IsUpToDate)
    (h : ((es.map (·.2)).foldlM assertFact s).value = .error e) :
    e = .fault .unwritableInteger := by
  induction es generalizing s with
  | nil => cases h
  | cons d es ih =>
    obtain ⟨hkey, hkeys⟩ := List.forall_mem_cons.mp hkeys
    have hfresh := hnew d List.mem_cons_self
    rw [List.map_cons, List.foldlM_cons, Traced.bind_value_eq_error] at h
    rcases h with h | ⟨u, hu, h⟩
    · exact assertFact_eq_error hkey hfresh h
    · obtain ⟨-, hm, rfl⟩ := assertFact_extended hkey hfresh hu
      exact ih hkeys (asserts_next hnew hd) hd.tail (extended_isUpToDate hm) h

end

/-! ## Two orders -/

/-- The two sessions hold the same, in memory and on the agenda each in an order of its own; the
rules come in the same order on both agendas. -/
structure Rearranged (t u : Session) : Prop where
  entries : t.memory.entries.Perm u.memory.entries
  tokens : t.tokens = u.tokens
  onceTokens : t.onceTokens = u.onceTokens
  lastEffects : t.lastEffects = u.lastEffects
  metrics : t.metrics = u.metrics
  pending : t.pending.Perm u.pending
  rules : t.pending.map (·.rule) = u.pending.map (·.rule)

theorem extended_rearranged (hn : s.rules.Pairwise fun r r' => r.name.text ≠ r'.name.text)
    (h : es.Perm ds) : Rearranged (s.extended es) (s.extended ds) := by
  have hentries : (s.memory.entries ++ es).Perm (s.memory.entries ++ ds) := h.append_left _
  have hfacts : (s.extended es).memory.facts.Perm (s.extended ds).memory.facts := hentries.map _
  have hpending : (s.extended es).pending.Perm (s.extended ds).pending :=
    Agenda.build_perm_of_facts (c := s.options.recency) hfacts
  have hrules : (s.extended es).pending.map (·.rule) = (s.extended ds).pending.map (·.rule) :=
    Agenda.build_rules (c := s.options.recency) hn hfacts
  refine ⟨hentries, rfl, rfl, rfl, ?_, hpending, hrules⟩
  have hsize : (s.extended es).memory.size = (s.extended ds).memory.size := hentries.length_eq
  have hcounters : (s.extended es).counters = (s.extended ds).counters := by
    unfold extended
    rw [h.length_eq]
  unfold metrics
  rw [hsize, hpending.length_eq, hcounters]
  rfl

/-- A fact under its identity, if it has one. -/
def keyed (f : Value) : FactKey × Value := ((Fact.key f).toOption.getD default, f)

theorem keyed_eq (h : Fact.key f = .ok k) : keyed f = (k, f) := by
  rw [keyed, h]
  rfl

theorem map_keyed (fs : List Value) : (fs.map keyed).map (·.2) = fs := by
  rw [List.map_map]
  exact List.map_id fs

/-- What is known of new facts of different identities is known of their entries. -/
theorem keyed_spec (hd : fs.Pairwise Fact.Differ)
    (hnew : ∀ f ∈ fs, s.memory.contains f = .ok false) :
    (∀ e ∈ fs.map keyed, Fact.key e.2 = .ok e.1) ∧
    (∀ e ∈ fs.map keyed, s.memory.hasKey e.1 = .ok false) ∧
    (fs.map keyed).Pairwise fun d e => (d.1 == e.1) = false := by
  have hkey : ∀ f ∈ fs, ∃ k, Fact.key f = .ok k ∧ s.memory.hasKey k = .ok false :=
    fun f hf => bind_eq_ok.mp (hnew f hf)
  refine ⟨?_, ?_, ?_⟩
  · intro e he
    obtain ⟨f, hf, rfl⟩ := List.mem_map.mp he
    obtain ⟨k, hk, -⟩ := hkey f hf
    rw [keyed_eq hk]
    exact hk
  · intro e he
    obtain ⟨f, hf, rfl⟩ := List.mem_map.mp he
    obtain ⟨k, hk, hfresh⟩ := hkey f hf
    rw [keyed_eq hk]
    exact hfresh
  · rw [List.pairwise_map]
    refine hd.imp_of_mem ?_
    intro f g hf hg hdiffer
    obtain ⟨k, hk, -⟩ := hkey f hf
    obtain ⟨l, hl, -⟩ := hkey g hg
    rw [keyed_eq hk, keyed_eq hl]
    exact (hdiffer k l hk hl).1

/-- New facts can be asserted: their keys can be written, and every rule can be matched over the old
facts and the new. -/
structure Admits (s : Session) (fs : List Value) : Prop where
  writable : ∀ f ∈ fs, ∀ k, Fact.key f = .ok k → k.value.checkText = .ok ()
  matchable : ∀ r ∈ s.rules, r.IsMatchable (s.facts ++ fs)

theorem Admits.of_perm (h : s.Admits fs) (hp : fs.Perm gs) : s.Admits gs where
  writable g hg := h.writable g (hp.mem_iff.mpr hg)
  matchable r hr := (h.matchable r hr).of_perm (hp.append_left _)

/-- Facts of different new identities that are asserted one after the other are held after the old
ones. -/
theorem asserts_keyed (hs : s.IsUpToDate) (hd : fs.Pairwise Fact.Differ)
    (hnew : ∀ f ∈ fs, s.memory.contains f = .ok false)
    (h : (fs.foldlM assertFact s).value = .ok t) : t = s.extended (fs.map keyed) := by
  obtain ⟨hkeys, hfresh, hdiffer⟩ := keyed_spec hd hnew
  rw [← map_keyed fs] at h
  exact (asserts_extended hkeys hfresh hdiffer hs h).2.2

section

variable (ho : Observer.FailsWritably s.options.observer)
include ho

/-- Facts of different new identities can be asserted exactly if the session admits them, in
whatever order. -/
theorem asserts_admitted (hs : s.IsUpToDate) (hd : fs.Pairwise Fact.Differ)
    (hnew : ∀ f ∈ fs, s.memory.contains f = .ok false) :
    (fs.foldlM assertFact s).value = .ok t ↔ s.Admits fs ∧ t = s.extended (fs.map keyed) := by
  obtain ⟨hkeys, hfresh, hdiffer⟩ := keyed_spec hd hnew
  have hfold := asserts_eq_ok (t := t) hkeys hfresh hdiffer hs ho
  have hmatch : (s.extended (fs.map keyed)).IsMatchable ↔
      ∀ r ∈ s.rules, r.IsMatchable (s.facts ++ fs) := by
    rw [IsMatchable, extended_facts, map_keyed]
    rfl
  have hwrite : (∀ e ∈ fs.map keyed, e.1.value.checkText = .ok ()) ↔
      ∀ f ∈ fs, ∀ k, Fact.key f = .ok k → k.value.checkText = .ok () := by
    rw [List.forall_mem_map]
    refine forall₂_congr fun f hf => ?_
    have hkey : Fact.key f = .ok (keyed f).1 := hkeys _ (List.mem_map_of_mem hf)
    rw [hkey]
    simp
  rw [map_keyed] at hfold
  rw [hfold, hmatch, hwrite, ← and_assoc]
  exact and_congr_left fun _ => ⟨fun h => ⟨h.1, h.2⟩, fun h => ⟨h.writable, h.matchable⟩⟩

theorem asserts_refused (hs : s.IsUpToDate) (hd : fs.Pairwise Fact.Differ)
    (hnew : ∀ f ∈ fs, s.memory.contains f = .ok false) (h : ¬ s.Admits fs) :
    (fs.foldlM assertFact s).value = .error (.fault .unwritableInteger) := by
  obtain ⟨hkeys, hfresh, hdiffer⟩ := keyed_spec hd hnew
  cases hv : (fs.foldlM assertFact s).value with
  | ok t => exact absurd ((asserts_admitted ho hs hd hnew).mp hv).1 h
  | error e =>
    rw [← map_keyed fs] at hv
    rw [asserts_eq_error hkeys hfresh hdiffer hs hv]

end

/-- The order of independent assertions only affects the order of what is held. Take a reachable
session, and facts of different identities none of which is in memory. Where asserting them returns
in one order and in another, the two sessions have the same facts, tokens, last effects and metrics,
and their agendas hold the same activations with the rules in the same order. Unless the observer
fails in a way that cannot be logged, both orders return or both fail, in the same way; and they
return exactly if every key can be written and every rule can be matched over the old facts and the
new. -/
theorem asserts_commute (h : s.Reachable) (hp : fs.Perm gs) (hd : fs.Pairwise Fact.Differ)
    (hnew : ∀ f ∈ fs, s.memory.contains f = .ok false) :
    (∀ t u, (fs.foldlM assertFact s).value = .ok t → (gs.foldlM assertFact s).value = .ok u →
      Rearranged t u) ∧
    (Observer.FailsWritably s.options.observer →
      Agree Rearranged (fs.foldlM assertFact s) (gs.foldlM assertFact s) ∧
      ((∃ t, (fs.foldlM assertFact s).value = .ok t) ↔ s.Admits fs)) := by
  have hs := h.isUpToDate
  obtain ⟨s₀, as, h₀, hhistory⟩ := h
  have hnames := (hhistory.recorded h₀).names
  have hd' : gs.Pairwise Fact.Differ := (hp.pairwise_iff fun h => h.symm).mp hd
  have hnew' : ∀ g ∈ gs, s.memory.contains g = .ok false := fun g hg => hnew g (hp.mem_iff.mpr hg)
  have hrel : Rearranged (s.extended (fs.map keyed)) (s.extended (gs.map keyed)) :=
    extended_rearranged hnames (hp.map keyed)
  refine ⟨?_, fun ho => ⟨?_, ?_⟩⟩
  · intro t u ht hu
    rw [asserts_keyed hs hd hnew ht, asserts_keyed hs hd' hnew' hu]
    exact hrel
  · by_cases ha : s.Admits fs
    · have hleft := (asserts_admitted ho hs hd hnew).mpr ⟨ha, rfl⟩
      have hright := (asserts_admitted ho hs hd' hnew').mpr ⟨ha.of_perm hp, rfl⟩
      exact .ok hleft hright hrel
    · have ha' : ¬ s.Admits gs := fun h => ha (h.of_perm hp.symm)
      exact .error (asserts_refused ho hs hd hnew ha) (asserts_refused ho hs hd' hnew' ha')
  · constructor
    · intro ⟨t, ht⟩
      exact ((asserts_admitted ho hs hd hnew).mp ht).1
    · intro ha
      exact ⟨_, (asserts_admitted ho hs hd hnew).mpr ⟨ha, rfl⟩⟩

def Sample.guests (ids : List Int) : List Value := ids.map fun n => Sample.fact "guest" (.int n)

theorem Sample.guests_differ {ids : List Int} (h : ids.Nodup) :
    (Sample.guests ids).Pairwise Fact.Differ := by
  have hkey (n : Int) : Fact.key (Sample.fact "guest" (.int n)) =
      .ok ⟨.text "guest", .int n, .bool false⟩ := rfl
  have hne {m n : Int} (hmn : m ≠ n) : (FactKey.mk (.text "guest") (.int m) (.bool false) ==
      FactKey.mk (.text "guest") (.int n) (.bool false)) = false := by
    refine Bool.eq_false_iff.mpr fun heq => ?_
    obtain ⟨_, _, _, ⟨⟩, -, hid, -⟩ := Value.eqv_key.mp heq
    have hatom : (Value.int n).atom? = (Value.int m).atom? := ((Value.eqv_of_atom rfl).mp hid).2
    simp only [Value.atom?, Option.some.injEq, Atom.number.injEq, Number.whole.injEq] at hatom
    exact hmn hatom.symm
  rw [Sample.guests, List.pairwise_map]
  refine h.imp ?_
  intro m n hmn k l hk hl
  rw [hkey, Except.ok.injEq] at hk hl
  rw [← hk, ← hl]
  exact ⟨hne hmn, hne hmn.symm⟩

/-- Three guests come to the lobby where one is, in one order and in another: the agendas hold the
same greetings and welcomes, but not in the same order. -/
theorem asserts_commute_guests : ∃ s t u : Session, s.Reachable ∧ s.memory.size = 1 ∧
    ((Sample.guests [2, 3, 4]).foldlM assertFact s).value = .ok t ∧
    ((Sample.guests [4, 2, 3]).foldlM assertFact s).value = .ok u ∧
    Rearranged t u ∧ s.Admits (Sample.guests [2, 3, 4]) ∧ t.pending.length = 8 ∧
    (t.pending == u.pending) = false := by
  let os : List Operation := [.assertFact (Sample.fact "guest" (.int 1))]
  have hd : (Sample.lobby.replay os >>= fun r =>
      ((Sample.guests [2, 3, 4]).foldlM assertFact r.1).value >>= fun t =>
      ((Sample.guests [4, 2, 3]).foldlM assertFact r.1).value >>= fun u =>
      pure (r.1.memory.size,
        (Sample.guests [2, 3, 4]).all fun f => (r.1.memory.contains f).toOption == some false,
        t.pending.length, t.pending == u.pending)).toOption = some (1, true, 8, false) := by
    decide +kernel
  simp only [toOption_eq_some, bind_eq_ok, pure, Except.pure, Except.ok.injEq, Prod.mk.injEq] at hd
  obtain ⟨⟨s, as⟩, hr, t, ht, u, hu, hsize, hall, hlength, hdiffer⟩ := hd
  have hs : s.Reachable := ⟨_, as, Sample.lobby_isNew, replay_history hr⟩
  have hnew : ∀ f ∈ Sample.guests [2, 3, 4], s.memory.contains f = .ok false := by
    intro f hf
    exact toOption_eq_some.mp (beq_iff_eq.mp (List.all_eq_true.mp hall f hf))
  have hperm : (Sample.guests [2, 3, 4]).Perm (Sample.guests [4, 2, 3]) :=
    List.Perm.map _ (by decide)
  have ho : Observer.FailsWritably s.options.observer := by
    rw [(replay_history hr).keeps.2]
    exact Observer.failsWritably_none
  obtain ⟨hrel, hagree⟩ := asserts_commute hs hperm (Sample.guests_differ (by decide)) hnew
  have hadmits : s.Admits (Sample.guests [2, 3, 4]) := (hagree ho).2.mp ⟨t, ht⟩
  exact ⟨s, t, u, hs, hsize, ht, hu, hrel t u ht hu, hadmits, hlength, hdiffer⟩

end Session

end RuleEngine
