import RuleEngine.Proofs.Agenda.Order
import RuleEngine.Proofs.Memory.Edit
import RuleEngine.Proofs.Session.Firing

/-!
# Matching is monotone

Asserting only adds facts and retracting only takes facts away, each at one place. The agenda of
fewer facts is part of the agenda of more facts, in the same order (`Agenda.build_sublist`), and the
agenda of a reachable session is that of its facts, whatever has happened before. So a new fact
never withdraws or reorders what is pending, and a retraction never adds or reorders anything.

* `assert_sublist`, `retract_sublist`: what the two changes do to the facts.
* `agenda_monotone`: what they do to the agenda of a reachable session.
-/

namespace RuleEngine

/-- Over fewer facts a rule makes fewer attempts and finds fewer matches, so it can still be
matched. -/
theorem Rule.IsMatchable.of_sublist {r : Rule} {fs gs : List Value} (h : r.IsMatchable gs)
    (hs : fs.Sublist gs) : r.IsMatchable fs := by
  obtain ⟨hw, ho⟩ := h
  refine ⟨fun a ha => hw a ?_, fun b hb => ho b ?_⟩
  · exact (Pattern.joinAttempts_sublist hs (.refl _)).subset ha
  · exact (r.bindings_sublist hs).subset hb

namespace Memory

variable {m n : Memory} {k : Option FactKey} {fact target : Value}

theorem assert_sublist (h : m.assert fact = .ok (n, k)) : m.facts.Sublist n.facts := by
  obtain ⟨_, -, -, hedit⟩ := run_edit (c := .assert fact) h
  cases hedit with
  | known => exact .refl _
  | asserted => exact (List.sublist_append_left _ _).map _

theorem retract_sublist (h : m.retract target = .ok (n, k)) : n.facts.Sublist m.facts := by
  obtain ⟨_, -, -, hedit⟩ := run_edit (c := .retract target) h
  cases hedit with
  | absent => exact .refl _
  | removed hsplit =>
    rw [facts, facts, hsplit]
    exact ((List.sublist_cons_self _ _).append_left _).map _

end Memory

namespace Session

variable {s t : Session}

theorem freshAgenda_sublist (hk : Keeps s t) (h : s.memory.facts.Sublist t.memory.facts) :
    s.freshAgenda.Sublist t.freshAgenda := by
  unfold freshAgenda
  rw [hk.rules, hk.tokens, hk.onceTokens, hk.options]
  exact Agenda.build_sublist h

/-- Asserting never withdraws or reorders what is pending in a reachable session, and retracting
never adds or reorders anything. A retraction returns exactly if it can be made and the observer can
be told of the agenda after it: matching never fails over fewer facts. -/
theorem agenda_monotone (h : s.Reachable) :
    (∀ fact t, (s.assertFact fact).value = .ok t → s.pending.Sublist t.pending) ∧
    (∀ target t, (s.retract target).value = .ok t → t.pending.Sublist s.pending) ∧
    ∀ target, (∃ t, (s.retract target).value = .ok t) ↔
      ∃ m k, s.Makes (.retract target) m k ∧
        Observer.CanTell s.options.observer
          (s.changed (.retract target) m k).rebuilt.builtEvent := by
  obtain ⟨hmatch, hpend⟩ := h.isUpToDate
  refine ⟨?_, ?_, ?_⟩
  · intro fact t ht
    have hkeeps := change_keeps ht
    rw [hpend, (change_isUpToDate ht).2]
    obtain ⟨m, k, ⟨_, -, hrun, -⟩, -, rfl⟩ := change_eq_ok.mp ht
    exact freshAgenda_sublist hkeeps (Memory.assert_sublist hrun)
  · intro target t ht
    have hkeeps := change_keeps ht
    rw [hpend, (change_isUpToDate ht).2]
    obtain ⟨m, k, ⟨_, -, hrun, -⟩, -, rfl⟩ := change_eq_ok.mp ht
    exact freshAgenda_sublist hkeeps.symm (Memory.retract_sublist hrun)
  · intro target
    constructor
    · intro ⟨t, ht⟩
      obtain ⟨m, k, hmakes, hbuild, -⟩ := change_eq_ok.mp ht
      exact ⟨m, k, hmakes, hbuild.told⟩
    · intro ⟨m, k, hmakes, htold⟩
      obtain ⟨_, -, hrun, -⟩ := id hmakes
      have hfewer := Memory.retract_sublist hrun
      have hmatch' : (s.changed (.retract target) m k).IsMatchable := fun r hr =>
        (hmatch r hr).of_sublist hfewer
      exact ⟨_, change_eq_ok.mpr ⟨m, k, hmakes, ⟨hmatch', htold⟩, rfl⟩⟩

/-- Two guests are in the lobby, each to be welcomed and greeted. A third one only adds to what is
pending, and the second one leaving only takes away from it. -/
theorem agenda_monotone_guests : ∃ s t u : Session, s.Reachable ∧
    (s.assertFact (Sample.fact "guest" (.int 3))).value = .ok t ∧
    (s.retract (Sample.fact "guest" (.int 2))).value = .ok u ∧
    s.pending.length = 4 ∧ t.pending.length = 6 ∧ u.pending.length = 2 ∧
    s.pending.Sublist t.pending ∧ u.pending.Sublist s.pending := by
  let os : List Operation :=
    [.assertFact (Sample.fact "guest" (.int 1)), .assertFact (Sample.fact "guest" (.int 2))]
  have hd : (Sample.lobby.replay os >>= fun r =>
      (r.1.assertFact (Sample.fact "guest" (.int 3))).value >>= fun t =>
      (r.1.retract (Sample.fact "guest" (.int 2))).value >>= fun u =>
      pure (r.1.pending.length, t.pending.length, u.pending.length)).toOption =
        some (4, 6, 2) := by
    decide +kernel
  simp only [toOption_eq_some, bind_eq_ok, pure, Except.pure, Except.ok.injEq, Prod.mk.injEq] at hd
  obtain ⟨r, hr, t, ht, u, hu, h1, h2, h3⟩ := hd
  have hs : r.1.Reachable := ⟨_, r.2, Sample.lobby_isNew, replay_history hr⟩
  obtain ⟨hassert, hretract, -⟩ := agenda_monotone hs
  exact ⟨r.1, t, u, hs, ht, hu, h1, h2, h3, hassert _ t ht, hretract _ u hu⟩

end Session

end RuleEngine
