import RuleEngine.Proofs.Agenda
import RuleEngine.Proofs.Session.History

/-!
# The agenda of a reachable session is up to date

An operation gets at memory and tokens by several paths: a change rebuilds the agenda, `apply`
rebuilds only for effects on memory, a step takes the first activation off by hand, rebuilds inside
its effects and again at the end, and a new session has never built an agenda at all. On every path
the agenda ends up as the one its own fields give (`IsUpToDate`), and every rule has been matched
against the facts of the session without failing.

* `upToDate_preserved`: no change, count or step gets the agenda out of date.
* `agenda_current`: in a reachable session building the agenda anew gives what is pending; an
  activation is pending exactly if a rule supports it and it is not spent.
-/

namespace RuleEngine

namespace Session

variable {s t : Session}

/-- Every rule can be matched against the facts, and what is pending is the agenda of the session's
own fields. -/
def IsUpToDate (s : Session) : Prop := s.IsMatchable ∧ s.pending = s.freshAgenda

theorem rebuilt_isUpToDate (h : s.IsMatchable) : s.rebuilt.IsUpToDate := ⟨h, rfl⟩

theorem change_isUpToDate {c : Change} (h : (s.change c).value = .ok t) : t.IsUpToDate := by
  obtain ⟨m, k, -, hb, rfl⟩ := change_eq_ok.mp h
  exact rebuilt_isUpToDate hb.matchable

theorem step_isUpToDate {a : Activation} (h : s.step.value = .ok (t, some a)) : t.IsUpToDate := by
  obtain ⟨-, -, ⟨⟩⟩ | ⟨_, _, u, es, -, -, -, hb, rfl⟩ := step_eq_ok.mp h
  exact rebuilt_isUpToDate hb.matchable

theorem upToDate_preserved : Preserved fun _ s => s.IsUpToDate where
  change _ h := change_isUpToDate h
  count _ h := h
  step _ h := step_isUpToDate h

/-- A new session has no facts, so there is nothing to match and nothing to fire. -/
theorem IsNew.isUpToDate (h : IsNew s) : s.IsUpToDate := by
  obtain ⟨hv, -⟩ := h.eq_initial
  have hm : s.memory = .empty := by rw [hv]; rfl
  have hp : s.pending = [] := by rw [hv]; rfl
  refine ⟨fun r _ => ?_, ?_⟩
  · rw [hm]
    refine ⟨?_, ?_⟩
    · intro a ha
      obtain ⟨_, _, _, _, _, f, hf, -⟩ := Pattern.mem_joinAttempts.mp ha
      cases hf
    · rw [show Memory.empty.facts = [] from rfl, r.bindings_nil]
      exact fun b hb => nomatch hb
  · rw [hp, freshAgenda, hm, Agenda.build_empty]

theorem Reachable.isUpToDate (h : s.Reachable) : s.IsUpToDate := by
  obtain ⟨s₀, as, h₀, h⟩ := h
  exact upToDate_preserved.fromStart h₀.isUpToDate h

theorem IsUpToDate.rebuilt_eq (h : s.IsUpToDate) : s.rebuilt = { s with
    counters := { s.counters with agendaBuilds := s.counters.agendaBuilds + 1 } } := by
  rw [rebuilt, ← h.2]

/-- In a reachable session building the agenda anew changes nothing but the count of builds, and it
returns exactly if the observer can be told of the agenda. So nothing pending is stale, and nothing
supported and unspent is missing. -/
theorem agenda_current (h : s.Reachable) :
    (Observer.CanTell s.options.observer s.builtEvent ↔ s.rebuild.value = .ok { s with
      counters := { s.counters with agendaBuilds := s.counters.agendaBuilds + 1 } }) ∧
    s.pending = Agenda.build s.rules s.memory s.tokens s.onceTokens s.options.recency ∧
    ∀ a, a ∈ s.pending ↔
      (∃ r ∈ s.rules, ∃ b ∈ r.bindings s.facts, a = Activation.make r.name b r.salience r.once) ∧
        ¬ Agenda.IsSpent s.tokens s.onceTokens a := by
  have hs := h.isUpToDate
  refine ⟨?_, hs.2, fun a => ?_⟩
  · have hevent : s.rebuilt.builtEvent = s.builtEvent := by
      rw [hs.rebuilt_eq]
      rfl
    rw [rebuild_eq_ok, ← hs.rebuilt_eq, ← hevent]
    exact ⟨fun htold => ⟨⟨hs.1, htold⟩, rfl⟩, fun hb => hb.1.told⟩
  · rw [hs.2, freshAgenda, Agenda.mem_build]
    simp only [Rule.mem_activations, View.facts]

/-- After two guests have come and one has been welcomed, the other is still pending. -/
theorem agenda_current_guests : ∃ s : Session, s.Reachable ∧
    s.pending.length = 1 ∧ s.tokens.length = 1 ∧ s.memory.size = 3 ∧
    s.pending = Agenda.build s.rules s.memory s.tokens s.onceTokens s.options.recency := by
  let os : List Operation :=
    [.assertFact (Sample.fact "guest" (.int 1)), .upsert (Sample.fact "guest" (.int 2)), .step]
  have hd : (Sample.start.replay os >>= fun r =>
      pure (r.1.pending.length, r.1.tokens.length, r.1.memory.size)).toOption = some (1, 1, 3) := by
    decide +kernel
  simp only [toOption_eq_some, bind_eq_ok, pure, Except.pure, Except.ok.injEq, Prod.mk.injEq] at hd
  obtain ⟨r, hr, h1, h2, h3⟩ := hd
  have hs : r.1.Reachable := ⟨_, r.2, Sample.start_isNew, replay_history hr⟩
  exact ⟨r.1, hs, h1, h2, h3, (agenda_current hs).2.1⟩

end Session

end RuleEngine
