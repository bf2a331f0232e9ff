import RuleEngine.Proofs.Agenda.Bound
import RuleEngine.Proofs.Session.Obstacle

/-!
# How a run ends

A run without a budget goes on until nothing is pending or a step fails. `Ends s as t` says that the
steps of `s` end in `t` after firing `as`, and which of the two it is: either `t` is idle, and every
run with enough fuel answers with it, or `t` jams, and every run with enough fuel fails.

As long as no action fails (`ActionsAnswer`) there is no third way (`Fires.ends`), so whoever bounds
the number of steps knows how the run ends (`exists_ends`).
-/

namespace RuleEngine.Session

variable {s t u : Session} {as bs : List Activation}

/-- No action that the session calls on its way fails. -/
def ActionsAnswer (s : Session) : Prop :=
  ∀ as t a r c, Fires step s as t → t.Calls a r c → ∃ x, r.action c = .ok x

/-- The steps of a session end in another one after firing these activations. -/
inductive Ends (s : Session) (as : List Activation) (t : Session) : Prop where
  | idle (state : t.state = .idle)
      (run : ∀ fuel, as.length ≤ fuel → (s.run fuel .none).value = .ok (t, as))
  | jams (jams : t.Jams) (f : Fault)
      (run : ∀ fuel, as.length < fuel → (s.run fuel .none).value = .error (.fault f))

theorem state_eq_idle : s.state = .idle ↔ s.pending = [] := by
  unfold state
  cases s.pending <;> simp

/-! ## Chains of steps -/

theorem Fires.trans (h : Fires step s as t) (k : Fires step t bs u) :
    Fires step s (as ++ bs) u := by
  induction h with
  | refl => exact k
  | next hstep _ ih => exact .next hstep (ih k)

theorem Fires.singleton {a : Activation} (h : s.step.value = .ok (t, some a)) :
    Fires step s [a] t := .next h (.refl t)

theorem Fires.reachable (h : Fires step s as t) (hs : s.Reachable) : t.Reachable := by
  obtain ⟨s₀, as₀, h₀, hist⟩ := hs
  exact ⟨s₀, _, h₀, hist.trans h.history⟩

theorem Fires.mem_rules (h : Fires step s as t) {a : Activation} {r : Rule} {c : ActionContext}
    (hc : t.Calls a r c) : r ∈ s.rules := by
  rw [← h.history.keeps.1]
  exact hc.mem_rules

/-- Rules whose actions never fail need not be followed on their way. -/
theorem ActionsAnswer.of_rules (h : ∀ r ∈ s.rules, ∀ c, ∃ x, r.action c = .ok x) :
    s.ActionsAnswer :=
  fun _ _ _ r c hfires hc => h r (hfires.mem_rules hc) c

/-! ## Runs -/

/-- A chain of steps that leads to an idle session is what a run with enough fuel answers. -/
theorem Fires.runSteps_of_idle (h : Fires step s as t) (ht : t.state = .idle) {fuel : Nat}
    (hf : as.length ≤ fuel) : (runSteps fuel s).value = .ok (t, as) := by
  induction h generalizing fuel with
  | refl s =>
    cases fuel with
    | zero => rfl
    | succ fuel =>
      have hstep : s.step.value = .ok (s, none) :=
        step_eq_ok.mpr (.inl ⟨state_eq_idle.mp ht, rfl, rfl⟩)
      exact runSteps_succ_eq_ok.mpr (.inl ⟨hstep, rfl⟩)
  | next hstep _ ih =>
    cases fuel with
    | zero => cases hf
    | succ fuel =>
      have hrest := ih ht (Nat.le_of_succ_le_succ hf)
      exact runSteps_succ_eq_ok.mpr (.inr ⟨_, _, _, hstep, hrest, rfl⟩)

/-- If the step after a chain fails, so does every run with enough fuel to get there. -/
theorem Fires.runSteps_of_error (h : Fires step s as t) {e : Error} (ht : t.step.value = .error e)
    {fuel : Nat} (hf : as.length < fuel) : (runSteps fuel s).value = .error e := by
  induction h generalizing fuel with
  | refl s =>
    cases fuel with
    | zero => cases hf
    | succ fuel => exact Traced.bind_value_eq_error.mpr (.inl ht)
  | next hstep _ ih =>
    cases fuel with
    | zero => cases hf
    | succ fuel =>
      have hrest := ih ht (Nat.lt_of_succ_lt_succ hf)
      refine Traced.bind_value_eq_error.mpr (.inr ⟨_, hstep, ?_⟩)
      exact Traced.bind_value_eq_error.mpr (.inl hrest)

/-- Without a budget a run is bounded by its fuel alone. -/
theorem run_none (h : s.options.maxSteps = none) (fuel : Nat) :
    s.run fuel .none = runSteps fuel s := by
  unfold run
  rw [h]
  exact pure_bind _ _

/-! ## Ends -/

section

variable (hs : s.Reachable) (hbudget : s.options.maxSteps = none) (hanswer : s.ActionsAnswer)

include hs hbudget hanswer

/-- Where no action fails, steps that cannot go on end in an idle session or in one that jams. -/
theorem Fires.ends (h : Fires step s as t) (hstop : ∀ u a, t.step.value ≠ .ok (u, some a)) :
    s.Ends as t := by
  have hmatch := (h.reachable hs).isUpToDate.1
  cases hp : t.pending.head? with
  | none =>
    have hidle : t.state = .idle := state_eq_idle.mpr (List.head?_eq_none_iff.mp hp)
    refine .idle hidle fun fuel hf => ?_
    rw [run_none hbudget]
    exact h.runSteps_of_idle hidle hf
  | some a =>
    obtain ⟨r, hc⟩ := (h.reachable hs).calls hp
    have hjams : t.Jams := by
      by_contra hj
      obtain ⟨x, hx⟩ := hanswer _ _ _ _ _ h hc
      obtain ⟨v, o, hv⟩ := step_of_answer hmatch hj hc hx
      -- the step has something to fire, so it fires
      obtain ⟨hn, -⟩ | ⟨b, _, _, _, -, rfl, -⟩ := step_eq_ok.mp hv
      · rw [hn] at hp
        cases hp
      · exact hstop v b hv
    obtain ⟨f, hf⟩ := step_of_jams hmatch hjams
    refine .jams hjams f fun fuel hfuel => ?_
    rw [run_none hbudget]
    exact h.runSteps_of_error hf hfuel

/-- Where no action fails and no chain of steps is longer than a bound, the steps end. -/
theorem exists_ends {n : Nat} (hbound : ∀ as t, Fires step s as t → as.length ≤ n) :
    ∃ as t, Fires step s as t ∧ s.Ends as t := by
  by_contra hnone
  have hgo : ∀ k, ∃ as t, Fires step s as t ∧ as.length = k := by
    intro k
    induction k with
    | zero => exact ⟨[], s, .refl s, rfl⟩
    | succ k ih =>
      obtain ⟨as, t, h, hl⟩ := ih
      have hstep : ∃ u a, t.step.value = .ok (u, some a) := by
        by_contra hstop
        exact hnone ⟨as, t, h, h.ends hs hbudget hanswer fun u a hu => hstop ⟨u, a, hu⟩⟩
      obtain ⟨u, a, hu⟩ := hstep
      exact ⟨_, u, h.trans (.singleton hu), by simp [hl]⟩
  obtain ⟨as, t, h, hl⟩ := hgo (n + 1)
  have := hbound as t h
  omega

end

/-- On facts whose ids are numbers, binding the id binds a proper map. -/
theorem Sample.idOf_bindsWell (kind name : String) {facts : List Value}
    (h : ∀ f ∈ facts, ∃ k n, f = Sample.fact k (.int n)) :
    Pattern.BindsWell [Sample.idOf kind name] facts := by
  intro p hp f hf b hb
  obtain rfl := List.mem_singleton.mp hp
  obtain ⟨k, n, rfl⟩ := h f hf
  have hfound : (Sample.idOf kind name).matcher (Sample.fact k (.int n)) =
      .ok (if k = kind then .map [(.text name, .int n)] else .none) := rfl
  obtain rfl : b = [(.text name, .int n)] := by
    unfold Pattern.found? at hb
    rw [hfound] at hb
    dsimp only at hb
    split at hb
    · exact (Option.some.inj hb).symm
    · cases hb
  refine ⟨Binding.proper_iff.mpr ⟨?_, ?_, List.pairwise_singleton _ _⟩,
    .map ?_ ?_ ?_ (List.pairwise_singleton _ _)⟩ <;> rw [List.forall_mem_singleton]
  · exact Value.proper_text name
  · exact .atom rfl (by simp)
  · exact Value.wellFormed_text name
  · exact .atom rfl (by simp)
  · rfl

end RuleEngine.Session
