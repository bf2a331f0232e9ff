import Mathlib.Data.List.Nodup
import RuleEngine.Proofs.Agenda.Bound
import RuleEngine.Proofs.Session.Announcement
import RuleEngine.Proofs.Session.Termination

/-!
# Activations that come twice

An activation stands for a rule and a binding, and its token says which. The join gives a binding
for every tuple of facts that matches, and two tuples can give equal bindings: a pattern may bind
nothing, or only what several facts have in common. A rebuild leaves out what has a fired token but
does not compare the new activations with each other, so such an activation is pending twice, is
counted twice, and both go when one of them fires.

That is the only way in which two pending activations have equal tokens (`Session.Doubles`): of two
rules the names differ, and no tuple is matched twice, because the rows of a join come in strict
order.

* `Rule.open_pairwise`: the activations of one rule.
* `pending_distinct`: the agenda of a reachable session, and how many different tokens it holds.
-/

namespace RuleEngine

open Binding (union)
open Pattern (Joins BindsWell)

/-! ## How many tokens are different -/

namespace Token

def distinct (ts : List Token) : List Token := ts.foldl (fun acc t => t.add acc) []

/-- Adding tokens one by one adds at most as many as there are, and all of them exactly if each
differs from those before it. -/
theorem foldl_add_length (acc ts : List Token) :
    (ts.foldl (fun acc t => t.add acc) acc).length ≤ acc.length + ts.length ∧
    ((ts.foldl (fun acc t => t.add acc) acc).length = acc.length + ts.length ↔
      (∀ x ∈ acc, ∀ y ∈ ts, (x == y) = false) ∧ ts.Pairwise fun x y => (x == y) = false) := by
  induction ts generalizing acc with
  | nil => simp
  | cons t ts ih =>
    rw [List.foldl_cons, List.length_cons]
    by_cases hknown : acc.any (· == t) = true
    · have hadd : t.add acc = acc := if_pos hknown
      have hle := (ih acc).1
      rw [hadd]
      refine ⟨by omega, ⟨fun hlength => by omega, fun ⟨hnew, _⟩ => ?_⟩⟩
      obtain ⟨x, hx, heq⟩ := List.any_eq_true.mp hknown
      rw [hnew x hx t List.mem_cons_self] at heq
      cases heq
    · have hadd : t.add acc = acc ++ [t] := if_neg hknown
      have hnew : ∀ x ∈ acc, (x == t) = false := by simpa using hknown
      obtain ⟨hle, hiff⟩ := ih (acc ++ [t])
      rw [hadd]
      rw [List.length_append, List.length_singleton] at hle hiff
      refine ⟨by omega, ?_⟩
      rw [show acc.length + (ts.length + 1) = acc.length + 1 + ts.length by omega, hiff]
      simp only [List.forall_mem_append, List.forall_mem_cons, List.pairwise_cons]
      constructor
      · rintro ⟨⟨hacc, ht, -⟩, hts⟩
        exact ⟨fun x hx => ⟨hnew x hx, hacc x hx⟩, ht, hts⟩
      · rintro ⟨hacc, ht, hts⟩
        exact ⟨⟨fun x hx => (hacc x hx).2, ht, by simp⟩, hts⟩

/-- As many tokens are different as there are, exactly if no two of them are equal. -/
theorem distinct_length (ts : List Token) : (distinct ts).length ≤ ts.length ∧
    ((distinct ts).length = ts.length ↔ ts.Pairwise fun x y => (x == y) = false) := by
  have h := foldl_add_length [] ts
  simpa [distinct] using h

end Token

/-! ## The activations of one rule -/

def Activation.Apart (a b : Activation) : Prop :=
  (a.token == b.token) = false ∧ (b.token == a.token) = false

theorem Activation.Apart.symm {a b : Activation} (h : Activation.Apart a b) :
    Activation.Apart b a := ⟨h.2, h.1⟩

namespace Rule

variable {r r' : Rule} {facts : List Value} {ts os : List Token} {a b : Activation}

/-- The rule matches two different tuples of facts under bindings with equal tokens, and neither
activation is spent. -/
def Doubles (r : Rule) (facts : List Value) (ts os : List Token) : Prop :=
  ∃ (is js : List (Fin facts.length)) (bs cs : List Binding), is ≠ js ∧
    Joins r.patterns (is.map facts.get) bs ∧ Joins r.patterns (js.map facts.get) cs ∧
    (Token.frozen r.name (union bs) == Token.frozen r.name (union cs)) = true ∧
    ¬ Agenda.IsSpent ts os (.make r.name (union bs) r.salience r.once) ∧
    ¬ Agenda.IsSpent ts os (.make r.name (union cs) r.salience r.once)

/-- A token that equals that of an activation under a proper binding is also equalled by it. -/
theorem apart_iff (h : BindsWell r.patterns facts) (hb : b ∈ r.activations facts) :
    a.Apart b ↔ (a.token == b.token) = false := by
  refine ⟨fun h => h.1, fun hne => ⟨hne, Bool.eq_false_iff.mpr fun heq => ?_⟩⟩
  obtain ⟨c, hc, rfl⟩ := mem_activations.mp hb
  obtain ⟨hproper, hwell⟩ := h.joinFrom (List.forall_mem_singleton.mpr
    ⟨.nil, .map (by simp) (by simp) (by simp) .nil⟩) c hc
  obtain ⟨hname, hbinding⟩ := Bool.and_eq_true_iff.mp heq
  have hfrozen := (Value.Proper.freeze hproper hwell).symm hbinding
  have hback : (a.token == Token.frozen r.name c) = true :=
    Bool.and_eq_true_iff.mpr ⟨beq_iff_eq.mpr (beq_iff_eq.mp hname).symm, hfrozen⟩
  rw [show (a.token == Token.frozen r.name c) = false from hne] at hback
  cases hback

/-- The activation of a row of the rule's join. -/
def ofRow (r : Rule) (x : Pattern.Row facts) : Activation :=
  .make r.name (union x.2) r.salience r.once

theorem activations_eq_rows (h : BindsWell r.patterns facts) :
    r.activations facts = (Pattern.rows r.patterns facts).map r.ofRow := by
  have hproper : Pattern.BindsProperly r.patterns facts :=
    fun p hp f hf b hb => (h p hp f hf b hb).1
  rw [activations, bindings, Pattern.join_eq_rows hproper, activationsUnder, List.map_map]
  rfl

/-- The unspent activations of a rule have different tokens, unless the rule doubles. -/
theorem open_pairwise (h : BindsWell r.patterns facts) :
    (Agenda.filterFired ts os (r.activations facts)).Pairwise Activation.Apart ↔
      ¬ r.Doubles facts ts os := by
  have hproper : Pattern.BindsProperly r.patterns facts :=
    fun p hp f hf b hb => (h p hp f hf b hb).1
  have htuples : ((Pattern.rows r.patterns facts).map Prod.fst).Nodup := by
    refine List.pairwise_map.mpr (Pattern.rows_sorted.imp ?_)
    intro x y hlt heq
    rw [heq] at hlt
    exact List.lt_irrefl _ hlt
  have hfound : ∀ y ∈ Pattern.rows r.patterns facts, r.ofRow y ∈ r.activations facts := by
    intro y hy
    rw [activations_eq_rows h]
    exact List.mem_map_of_mem hy
  rw [activations_eq_rows h, Agenda.filterFired, List.pairwise_filter, List.pairwise_map]
  simp only [Agenda.isOpen_iff]
  constructor
  · rintro hrows ⟨is, js, bs, cs, hne, hbs, hcs, heq, hopen, hopen'⟩
    have hx : (is, bs) ∈ Pattern.rows r.patterns facts := (Pattern.mem_rows hproper).mpr hbs
    have hy : (js, cs) ∈ Pattern.rows r.patterns facts := (Pattern.mem_rows hproper).mpr hcs
    have hxy : ((is, bs) : Pattern.Row facts) ≠ (js, cs) := fun he => hne (congrArg Prod.fst he)
    have : Std.Symm fun x y : Pattern.Row facts => ¬ Agenda.IsSpent ts os (r.ofRow x) →
        ¬ Agenda.IsSpent ts os (r.ofRow y) → (r.ofRow x).Apart (r.ofRow y) :=
      ⟨fun _ _ hapart hox hoy => (hapart hoy hox).symm⟩
    have hapart := hrows.forall hx hy hxy hopen hopen'
    exact Bool.false_ne_true (hapart.1.symm.trans heq)
  · intro hdoubles
    refine List.Nodup.pairwise_of_forall_ne (.of_map _ htuples) ?_
    intro x hx y hy hne hopen hopen'
    refine (apart_iff h (hfound y hy)).mpr (Bool.eq_false_iff.mpr fun heq => ?_)
    have htuple : x.1 ≠ y.1 := fun he => hne (List.inj_on_of_nodup_map htuples hx hy he)
    exact hdoubles ⟨x.1, y.1, x.2, y.2, htuple, (Pattern.mem_rows hproper).mp hx,
      (Pattern.mem_rows hproper).mp hy, heq, hopen, hopen'⟩

end Rule

/-! ## The agenda -/

namespace Session

variable {s : Session}

/-- Some rule matches two different tuples of facts under bindings with equal tokens, and neither is
spent. -/
def Doubles (s : Session) : Prop := ∃ r ∈ s.rules, r.Doubles s.facts s.tokens s.onceTokens

theorem pending_pairwise (h : s.Reachable)
    (hwell : ∀ r ∈ s.rules, BindsWell r.patterns s.facts) :
    (s.pending.Pairwise fun a b => (a.token == b.token) = false) ↔ ¬ s.Doubles := by
  have hpending := h.isUpToDate.2
  obtain ⟨s₀, as, h₀, hhistory⟩ := h
  have hnames := (hhistory.recorded h₀).names
  have hapart : (s.pending.Pairwise fun a b => (a.token == b.token) = false) ↔
      s.pending.Pairwise Activation.Apart := by
    refine List.Pairwise.iff_of_mem ?_
    intro a b _ hb
    rw [hpending, freshAgenda, Agenda.mem_build] at hb
    obtain ⟨⟨r, hr, hact⟩, -⟩ := hb
    exact (Rule.apart_iff (hwell r hr) hact).symm
  rw [hapart, hpending, freshAgenda, Agenda.build_eq_sort,
    (StableSort.sort_perm _ _).pairwise_iff Activation.Apart.symm, List.pairwise_flatMap]
  constructor
  · rintro ⟨hrules, -⟩ ⟨r, hr, hdoubles⟩
    exact (Rule.open_pairwise (hwell r hr)).mp (hrules r hr) hdoubles
  · intro hdoubles
    refine ⟨fun r hr => (Rule.open_pairwise (hwell r hr)).mpr fun hd => hdoubles ⟨r, hr, hd⟩, ?_⟩
    -- tokens of different rules carry different names
    refine hnames.imp ?_
    intro r r' hne a ha b hb
    obtain ⟨c, -, rfl⟩ := Rule.mem_activations.mp (List.mem_filter.mp ha).1
    obtain ⟨d, -, rfl⟩ := Rule.mem_activations.mp (List.mem_filter.mp hb).1
    have hdiffer {n m : Name} (hnm : n.text ≠ m.text) (c d : Binding) :
        (Token.frozen n c == Token.frozen m d) = false := by
      refine Bool.eq_false_iff.mpr fun heq => hnm ?_
      exact beq_iff_eq.mp (Bool.and_eq_true_iff.mp heq).1
    exact ⟨hdiffer hne c d, hdiffer hne.symm d c⟩

/-- The pending activations of a reachable session have different tokens, unless a rule matches two
different tuples of facts under bindings with equal tokens and neither is spent. Only then is the
size of the agenda, as the metrics and the event of its building report it, more than the number of
different tokens that wait to fire; it is never less. -/
theorem pending_distinct (h : s.Reachable)
    (hwell : ∀ r ∈ s.rules, BindsWell r.patterns s.facts) :
    let waiting := (Token.distinct (s.pending.map (·.token))).length
    ((s.pending.Pairwise fun a b => (a.token == b.token) = false) ↔ ¬ s.Doubles) ∧
    waiting ≤ s.pending.length ∧
    (s.metrics.lookup "agenda" = some waiting ↔ ¬ s.Doubles) ∧
    (s.builtEvent.metadata.head? = some (.text "count", .int waiting) ↔ ¬ s.Doubles) := by
  intro waiting
  have hpairwise := pending_pairwise h hwell
  obtain ⟨hle, hlength⟩ := Token.distinct_length (s.pending.map (·.token))
  rw [List.length_map] at hle hlength
  rw [List.pairwise_map, hpairwise] at hlength
  have hmetrics : s.metrics.lookup "agenda" = some s.pending.length := rfl
  have hevent : s.builtEvent.metadata.head? = some (.text "count", .int s.pending.length) := rfl
  refine ⟨hpairwise, hle, ?_, ?_⟩
  · rw [hmetrics, Option.some.injEq, eq_comm]
    exact hlength
  · rw [hevent, Option.some.injEq, Prod.mk.injEq, Value.int.injEq, Int.natCast_inj,
      and_iff_right rfl, eq_comm]
    exact hlength

/-- Two guests wait to be welcomed, under two tokens. -/
theorem pending_distinct_guests : ∃ s : Session, s.Reachable ∧
    (∀ r ∈ s.rules, BindsWell r.patterns s.facts) ∧ s.pending.length = 2 ∧ ¬ s.Doubles ∧
    (Token.distinct (s.pending.map (·.token))).length = 2 := by
  have hd : ((Sample.start.assertFact (Sample.fact "guest" (.int 1))).value >>= fun u =>
      (u.assertFact (Sample.fact "guest" (.int 2))).value >>= fun s =>
      pure (s.pending.length, (Token.distinct (s.pending.map (·.token))).length)).toOption =
        some (2, 2) := by
    decide +kernel
  simp only [toOption_eq_some, bind_eq_ok, pure, Except.pure, Except.ok.injEq, Prod.mk.injEq] at hd
  obtain ⟨u, hu, s, hs, hpending, hdistinct⟩ := hd
  obtain ⟨⟨s₀, as₀, h₀, hist⟩, hrules, -, hfacts⟩ := Sample.start_isNew.assertFact hu
  have hperform : (u.perform (.assertFact (Sample.fact "guest" (.int 2)))).value = .ok (s, []) :=
    Traced.bind_value_eq_ok.mpr ⟨s, hs, rfl⟩
  have hreach : s.Reachable := ⟨s₀, _, h₀, .next hist hperform⟩
  have hguests : ∀ v ∈ s.facts, ∃ k n, v = Sample.fact k (.int n) := by
    intro v hv
    rcases change_facts (e := .assert (Sample.fact "guest" (.int 2))) rfl hs v hv with
      hv | ⟨⟨⟩⟩ | ⟨⟨⟩⟩
    · rw [hfacts] at hv
      exact ⟨_, 1, List.mem_singleton.mp hv⟩
    · exact ⟨_, 2, rfl⟩
  have hwell : ∀ r ∈ s.rules, BindsWell r.patterns s.facts := by
    rw [(change_keeps hs).rules, hrules]
    intro r hr
    obtain rfl : r = Sample.welcome := List.mem_singleton.mp hr
    exact Sample.idOf_bindsWell "guest" "who" hguests
  obtain ⟨-, -, hmetrics, -⟩ := pending_distinct hreach hwell
  refine ⟨s, hreach, hwell, hpending, hmetrics.mp ?_, hdistinct⟩
  rw [hdistinct, ← hpending]
  rfl

def Sample.anyOrder : Pattern where
  matcher f := .ok (if (f.entry? "kind").any (· == .text "order") then .map [] else .none)
  guard := none

theorem Sample.anyOrder_bindsWell (facts : List Value) : BindsWell [Sample.anyOrder] facts := by
  intro p hp f _ b hb
  obtain rfl := List.mem_singleton.mp hp
  obtain rfl : b = [] := by
    simp only [Pattern.found?, Sample.anyOrder] at hb
    split at hb
    · exact (Option.some.inj hb).symm
    · cases hb
  exact ⟨.nil, .map (by simp) (by simp) (by simp) .nil⟩

def Sample.bell : Rule :=
  { Sample.welcome with
    name := .ofText "bell"
    patterns := [Sample.anyOrder]
    action := fun _ => .ok (.effects [])
    name_ne_empty := by decide
    patterns_ne_nil := List.cons_ne_nil _ _ }

def Sample.counter : Session := ⟨.initial .default, [Sample.bell]⟩

theorem Sample.counter_isNew : IsNew Sample.counter :=
  ⟨fun _ => none, .rule Sample.bell, .value .none, none, [], rfl⟩

/-- Two orders match a pattern that binds nothing: the same activation is pending twice, one token
waits to fire, and when it has fired nothing is left. -/
theorem pending_distinct_doubled : ∃ s t : Session, ∃ a, s.Reachable ∧
    (∀ r ∈ s.rules, BindsWell r.patterns s.facts) ∧
    s.metrics.lookup "agenda" = some 2 ∧ (Token.distinct (s.pending.map (·.token))).length = 1 ∧
    ¬ (s.pending.Pairwise fun a b => (a.token == b.token) = false) ∧
    s.step.value = .ok (t, some a) ∧ t.pending = [] := by
  let os : List Operation :=
    [.assertFact (Sample.fact "order" (.int 1)), .assertFact (Sample.fact "order" (.int 2))]
  have hd : (Sample.counter.replay os >>= fun r => r.1.step.value >>= fun q =>
      pure (r.1.metrics.lookup "agenda", (Token.distinct (r.1.pending.map (·.token))).length,
        q.2.isSome, q.1.pending.length)).toOption = some (some 2, 1, true, 0) := by
    decide +kernel
  simp only [toOption_eq_some, bind_eq_ok, pure, Except.pure, Except.ok.injEq, Prod.mk.injEq] at hd
  obtain ⟨⟨s, as⟩, hs, ⟨t, o⟩, hstep, hagenda, hdistinct, hfires, hleft⟩ := hd
  obtain ⟨a, rfl⟩ := Option.isSome_iff_exists.mp hfires
  have hwell : ∀ r ∈ s.rules, BindsWell r.patterns s.facts := by
    rw [(replay_history hs).keeps.1]
    intro r hr
    obtain rfl : r = Sample.bell := List.mem_singleton.mp hr
    exact Sample.anyOrder_bindsWell s.facts
  have hpending : s.pending.length = 2 := Option.some.inj hagenda
  refine ⟨s, t, a, ⟨_, as, Sample.counter_isNew, replay_history hs⟩, hwell, hagenda, hdistinct, ?_,
    hstep, List.eq_nil_of_length_eq_zero hleft⟩
  intro hpairwise
  have hlength := (Token.distinct_length (s.pending.map (·.token))).2.mpr
    (List.pairwise_map.mpr hpairwise)
  rw [hdistinct, List.length_map, hpending] at hlength
  cases hlength

end Session

end RuleEngine
