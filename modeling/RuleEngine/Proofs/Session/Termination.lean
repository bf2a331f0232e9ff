import RuleEngine.Proofs.Session.Ending

/-!
# Runs that draw on finitely many facts end

Nothing in the loop of a run gets smaller: facts may be asserted, replaced and retracted forever.
What gets used up are the tokens. No token fires twice, and a token comes from a rule and a tuple of
facts; so if whatever the effects put into memory is one of finitely many facts (`DrawsOn`), only so
many tokens can ever come up, and the run ends.

* `step_facts`: what a step puts into memory, an effect of its action asked for.
* `DrawsOn.facts`: the facts of a session and those it draws on are all it ever holds.
* `run_bounded`: such a run ends after at most as many steps as there are tuples of these facts for
  the patterns of its rules.
-/

namespace RuleEngine.Session

variable {s t : Session} {as : List Activation} {F : List Value}

/-- The effect puts the fact into memory if it is not there. -/
def Adds (e : Effect) (v : Value) : Prop := e = .assert v ∨ e = .upsert v

/-- Every fact that effects of the session put into memory on its way is one of these. -/
def DrawsOn (s : Session) (F : List Value) : Prop :=
  ∀ as t a r c items e v, Fires step s as t → t.Calls a r c → r.run c = .ok items →
    .effect e ∈ items → Adds e v → v ∈ F

/-! ## Facts that come up -/

theorem change_facts {e : Effect} {c : Change} (hc : Change.ofEffect? e = some c)
    (h : (s.change c).value = .ok t) : ∀ v ∈ t.facts, v ∈ s.facts ∨ Adds e v := by
  obtain ⟨m, k, ⟨_, -, hrun, -⟩, -, rfl⟩ := change_eq_ok.mp h
  obtain ⟨k', -, -, hedit⟩ := Memory.run_edit hrun
  have hsplit : ∀ {bs cs : List (FactKey × Value)} {x : FactKey × Value} {v : Value},
      v ∈ (bs ++ x :: cs).map (·.2) ↔ v = x.2 ∨ v ∈ (bs ++ cs).map (·.2) := by
    intro bs cs x v
    simp only [List.map_append, List.map_cons, List.mem_append, List.mem_cons]
    exact or_left_comm
  intro v (hv : v ∈ m.entries.map (·.2))
  change v ∈ s.memory.entries.map (·.2) ∨ Adds e v
  cases hedit with
  | known | equal | absent => exact .inl hv
  | @asserted fact =>
    obtain rfl : e = .assert fact := by cases e <;> cases hc; rfl
    rcases hsplit.mp hv with rfl | hv
    · exact .inr (.inl rfl)
    · exact .inl (by simpa using hv)
  | @inserted fact =>
    obtain rfl : e = .upsert fact := by cases e <;> cases hc; rfl
    rcases hsplit.mp hv with rfl | hv
    · exact .inr (.inr rfl)
    · exact .inl (by simpa using hv)
  | @replaced fact _ _ _ _ split =>
    obtain rfl : e = .upsert fact := by cases e <;> cases hc; rfl
    rw [split]
    rcases hsplit.mp hv with rfl | hv
    · exact .inr (.inr rfl)
    · exact .inl (hsplit.mpr (.inr hv))
  | removed split =>
    rw [split]
    exact .inl (hsplit.mpr (.inr hv))

theorem changeAll_facts {es : List Effect} (h : (s.changeAll es).value = .ok t) :
    ∀ v ∈ t.facts, v ∈ s.facts ∨ ∃ e ∈ es, Adds e v := by
  induction es generalizing s with
  | nil =>
    rw [changeAll_nil_eq_ok.mp h]
    exact fun v hv => .inl hv
  | cons e es ih =>
    rw [changeAll_cons] at h
    obtain ⟨u, hu, h⟩ := Traced.bind_value_eq_ok.mp h
    have hfirst : ∀ v ∈ u.facts, v ∈ s.facts ∨ Adds e v := by
      cases hc : Change.ofEffect? e with
      | some c =>
        rw [changeAll_singleton hc] at hu
        exact change_facts hc hu
      | none =>
        obtain ⟨w, hw, hu⟩ := changeAll_cons_eq_ok.mp hu
        rw [hc] at hw
        rw [changeAll_nil_eq_ok.mp hu, show w = s from hw]
        exact fun v hv => .inl hv
    intro v hv
    rcases ih h v hv with hv | ⟨e', he', hv⟩
    · exact (hfirst v hv).imp_right fun hv => ⟨e, List.mem_cons_self, hv⟩
    · exact .inr ⟨e', List.mem_cons_of_mem _ he', hv⟩

/-- What a step puts into memory, an effect of the action it calls asked for. -/
theorem step_facts {a : Activation} (h : s.step.value = .ok (t, some a)) :
    ∀ v ∈ t.facts, v ∈ s.facts ∨
      ∃ r c items e, s.Calls a r c ∧ r.run c = .ok items ∧ .effect e ∈ items ∧ Adds e v := by
  obtain ⟨r, c, items, hc, hrun, u, hmemory, hu⟩ := step_calls h
  have hfacts : t.facts = u.facts := congrArg Memory.facts hmemory
  rw [hfacts]
  intro v hv
  rcases hu with ⟨-, rfl⟩ | ⟨-, hu⟩
  · exact .inl hv
  · rcases changeAll_facts hu v hv with hv | ⟨e, he, hv⟩
    · exact .inl hv
    · exact .inr ⟨r, c, items, e, hc, hrun, Item.mem_effects.mp he, hv⟩

theorem DrawsOn.next (h : s.DrawsOn F) {a : Activation} (hstep : s.step.value = .ok (t, some a)) :
    t.DrawsOn F :=
  fun _ _ _ _ _ _ _ _ k => h _ _ _ _ _ _ _ _ (.next hstep k)

/-- What the actions of the rules can ever ask for covers what they ask for on the way. -/
theorem DrawsOn.of_rules (h : ∀ r ∈ s.rules, ∀ c items e v, r.run c = .ok items →
    .effect e ∈ items → Adds e v → v ∈ F) : s.DrawsOn F :=
  fun _ _ _ r c items e v hfires hc => h r (hfires.mem_rules hc) c items e v

/-- The facts of a session and those it draws on are all it ever holds. -/
theorem DrawsOn.facts (h : s.DrawsOn F) (hfires : Fires step s as t) : t.facts ⊆ s.facts ++ F := by
  induction hfires with
  | refl s => exact List.subset_append_left _ _
  | @next s u t a as hstep _ ih =>
    refine fun v hv => ?_
    rcases List.mem_append.mp (ih (h.next hstep) hv) with hv | hv
    · rcases step_facts hstep v hv with hv | ⟨r, c, items, e, hc, hrun, he, hv⟩
      · exact List.mem_append_left _ hv
      · exact List.mem_append_right _ (h _ _ _ _ _ _ _ _ (.refl s) hc hrun he hv)
    · exact List.mem_append_right _ hv

/-! ## Activations that come up -/

/-- What a session fires, a rule supports over some facts the session held by then. -/
theorem Fires.supported (hs : s.Reachable) {facts : List Value} (h : Fires step s as t)
    (hfacts : ∀ bs u, Fires step s bs u → u.facts ⊆ facts) :
    ∀ a ∈ as, ∃ r ∈ s.rules, a ∈ r.activations facts := by
  induction h with
  | refl => exact fun a ha => nomatch ha
  | @next s u t a as hstep _ ih =>
    obtain ⟨ha, -⟩ := step_fired hstep
    rw [hs.isUpToDate.2] at ha
    obtain ⟨⟨r, hr, hact⟩, -⟩ := Agenda.mem_build.mp ha
    have hrest := ih ((Fires.singleton hstep).reachable hs) fun bs u k => hfacts _ u (.next hstep k)
    rw [(step_keeps hstep).1] at hrest
    refine List.forall_mem_cons.mpr ⟨⟨r, hr, ?_⟩, hrest⟩
    exact r.activations_subset (hfacts [] s (.refl s)) hact

/-- No more is fired than there are tuples of facts for the patterns of the rules. -/
theorem Fires.length_le (hs : s.Reachable) (hdraws : s.DrawsOn F)
    (hwell : ∀ r ∈ s.rules, Pattern.BindsWell r.patterns (s.facts ++ F)) (h : Fires step s as t) :
    as.length ≤ (s.rules.map fun r => (s.facts.length + F.length) ^ r.patterns.length).sum := by
  obtain ⟨s₀, as₀, h₀, hist⟩ := id hs
  have hdiffer := ((hist.trans h.history).recorded h₀).distinct
  have hmem := h.supported hs fun bs u k => hdraws.facts k
  simpa using Activation.length_le hwell hmem (List.pairwise_append.mp hdiffer).2.1

/-- A run without a budget ends if no action fails and every fact that effects put into memory is
one of finitely many: after at most as many steps as there are tuples of facts for the patterns of
the rules, the facts being those of the session and those the effects draw on. What its matchers
bind must be maps without numbers that are not a number. -/
theorem run_bounded (hs : s.Reachable) (hbudget : s.options.maxSteps = none)
    (hwell : ∀ r ∈ s.rules, Pattern.BindsWell r.patterns (s.facts ++ F))
    (hanswer : s.ActionsAnswer) (hdraws : s.DrawsOn F) :
    ∃ as t, Fires step s as t ∧ s.Ends as t ∧
      as.length ≤ (s.rules.map fun r => (s.facts.length + F.length) ^ r.patterns.length).sum := by
  obtain ⟨as, t, h, hends⟩ := exists_ends hs hbudget hanswer fun as t h =>
    h.length_le hs hdraws hwell
  exact ⟨as, t, h, hends, h.length_le hs hdraws hwell⟩

/-! ## Samples -/

def Sample.relay (name kind next : String) (h : name ≠ "") : Rule :=
  { Sample.welcome with
    name := .ofText name
    patterns := [Sample.idOf kind "n"]
    action := fun _ => .ok (.effects [.effect (.upsert (Sample.fact next (.int 1)))])
    name_ne_empty := h
    patterns_ne_nil := List.cons_ne_nil _ _ }

def Sample.ping : Rule := Sample.relay "ping" "a" "b" (by decide)

def Sample.pong : Rule := Sample.relay "pong" "b" "a" (by decide)

def Sample.ring : Session := ⟨.initial .default, [Sample.ping, Sample.pong]⟩

theorem Sample.ring_isNew : IsNew Sample.ring :=
  ⟨fun _ => none, .list [.rule Sample.ping, .rule Sample.pong], .value .none, none, [], rfl⟩

theorem Sample.mem_ring {r : Rule} (h : r ∈ Sample.ring.rules) : ∃ name kind next hne,
    (next = "a" ∨ next = "b") ∧ r = Sample.relay name kind next hne := by
  rcases List.mem_pair.mp h with rfl | rfl
  · exact ⟨_, _, "b", _, .inr rfl, rfl⟩
  · exact ⟨_, _, "a", _, .inl rfl, rfl⟩

/-- Two rules that feed each other through two facts fire no more than six times, and in fact
twice. -/
theorem run_bounded_ring : ∃ s : Session, s.Reachable ∧
    (∃ as t, Fires step s as t ∧ s.Ends as t ∧ as.length ≤ 6) ∧
    ∃ as t, (s.run 9 .none).value = .ok (t, as) ∧ as.length = 2 ∧ t.state = .idle := by
  have hd : ((Sample.ring.assertFact (Sample.fact "a" (.int 1))).value >>= fun s =>
      (s.run 9 .none).value >>= fun q => pure (q.2.length, q.1.state)).toOption =
        some (2, .idle) := by
    decide +kernel
  simp only [toOption_eq_some, bind_eq_ok, pure, Except.pure, Except.ok.injEq, Prod.mk.injEq] at hd
  obtain ⟨s, hs, q, hq, hlength, hstate⟩ := hd
  obtain ⟨hreach, hrules, hoptions, hfacts⟩ := Sample.ring_isNew.assertFact hs
  have hwell : ∀ r ∈ s.rules, Pattern.BindsWell r.patterns
      (s.facts ++ [Sample.fact "a" (.int 1), Sample.fact "b" (.int 1)]) := by
    rw [hrules, hfacts]
    intro r hr
    obtain ⟨name, kind, next, hne, -, rfl⟩ := Sample.mem_ring hr
    refine Sample.idOf_bindsWell kind "n" fun f hf => ?_
    simp only [List.singleton_append, List.mem_cons, List.not_mem_nil, or_false] at hf
    rcases hf with rfl | rfl | rfl <;> exact ⟨_, 1, rfl⟩
  have hanswer : s.ActionsAnswer := by
    refine .of_rules fun r hr c => ?_
    rw [hrules] at hr
    obtain ⟨name, kind, next, hne, -, rfl⟩ := Sample.mem_ring hr
    exact ⟨_, rfl⟩
  have hdraws : s.DrawsOn [Sample.fact "a" (.int 1), Sample.fact "b" (.int 1)] := by
    refine .of_rules fun r hr c items e v hrun he hv => ?_
    rw [hrules] at hr
    obtain ⟨name, kind, next, hne, hnext, rfl⟩ := Sample.mem_ring hr
    cases hrun
    cases List.mem_singleton.mp he
    rcases hv with ⟨⟨⟩⟩ | ⟨⟨⟩⟩
    rcases hnext with rfl | rfl
    · exact List.mem_cons_self
    · exact List.mem_cons_of_mem _ List.mem_cons_self
  refine ⟨s, hreach, ?_, q.2, q.1, hq, hlength, hstate⟩
  obtain ⟨as, t, hfires, hends, hbound⟩ :=
    run_bounded hreach (by rw [hoptions]; rfl) hwell hanswer hdraws
  rw [hrules, hfacts] at hbound
  exact ⟨as, t, hfires, hends, hbound⟩

def Sample.longBadge : Value := Sample.fact "badge" (.int Value.writtenBound)

/-- A rule that draws on a single fact, whose identity is too long to be written: its action does
not fail, but no run comes to an end. -/
theorem run_bounded_overlong : ∃ (s : Session) (f : Fault), s.Reachable ∧
    s.options.maxSteps = none ∧
    (∀ r ∈ s.rules, Pattern.BindsWell r.patterns (s.facts ++ [Sample.longBadge])) ∧
    s.ActionsAnswer ∧ s.DrawsOn [Sample.longBadge] ∧
    ∀ fuel, 0 < fuel → (s.run fuel .none).value = .error (.fault f) := by
  let action : Action := fun _ => .ok (.effects [.effect (.assert Sample.longBadge)])
  obtain ⟨s, a, c, harrival, hs, hrules, hoptions, hfacts, hc⟩ :=
    Sample.arrival_calls action (by decide +kernel)
  have hbudget : s.options.maxSteps = none := by rw [hoptions]; rfl
  have hfails :
      ((Sample.arrival action).value.toOption.bind (·.step.value.toOption)).isNone = true := by
    decide +kernel
  have hstep : ¬ ∃ t o, s.step.value = .ok (t, o) := by
    rintro ⟨t, o, h⟩
    simp [harrival, h, Except.toOption] at hfails
  have hrun : (Sample.onGuest action).run c = .ok [.effect (.assert Sample.longBadge)] := rfl
  obtain ⟨f, hf⟩ := hc.step_eq_fault hrun hstep
  refine ⟨s, f, hs, hbudget, ?_, .of_rules ?_, .of_rules ?_, fun fuel hfuel => ?_⟩
  · rw [hrules, hfacts, List.forall_mem_singleton]
    refine Sample.idOf_bindsWell "guest" "who" fun f hf => ?_
    rcases List.mem_pair.mp hf with rfl | rfl <;> exact ⟨_, _, rfl⟩
  · rw [hrules, List.forall_mem_singleton]
    exact fun c => ⟨_, rfl⟩
  · rw [hrules, List.forall_mem_singleton]
    intro c items e v hrun he hv
    cases hrun
    cases List.mem_singleton.mp he
    rcases hv with ⟨⟨⟩⟩ | ⟨⟨⟩⟩
    exact List.mem_singleton_self _
  · rw [run_none hbudget]
    exact (Fires.refl s).runSteps_of_error hf hfuel

end RuleEngine.Session
