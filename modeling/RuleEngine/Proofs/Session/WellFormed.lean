import RuleEngine.Proofs.Session.Obstacle

/-!
# Well-formed sessions

A firing looks its rule up by the name that an activation carries, and fails with an error of its
own if there is none. The error never comes up: the rules of a session have different names and are
never exchanged, so each is found under its own name (`rule?_iff`), and whatever is pending was
made of one of them when the agenda was built last.

* `Error.Legitimate`: the errors in which a step of a reachable session can end, that of its action,
  the host's own, and the faults of what comes after (`step_legitimate`, `runSteps_legitimate`).
* `wellFormed_throughout`: a session that `Session.new` builds has the rules of its sources, is well
  formed, stays so along every history, and no step or run of it comes upon an unknown rule.
-/

namespace RuleEngine

/-! ## Errors of a step -/

/-- The error is that of an agenda that names a rule the session does not hold, or a fault that goes
by its label. -/
def Error.IsContractViolation : Error → Prop
  | .unknownRule _ => True
  | .fault f => f.label = "ContractViolationError"
  | .definition _ | .configuration _ | .action .. => False

/-- The host's own fault: the one that going through some answer of a rule's action ends in. -/
def Error.IsHosts (rs : List Rule) (e : Error) : Prop :=
  ∃ r ∈ rs, ∃ c a f, r.action c = .ok a ∧ a.items = .error f ∧ e = .fault f

/-- The errors in which a step can end where the session has these rules: that of an action, one of
the host, or a legitimate fault. -/
inductive Error.Legitimate (rs : List Rule) : Error → Prop where
  | action (rule : Name) (cause : Fault) : Legitimate rs (.action rule cause)
  | hosts {e : Error} (h : e.IsHosts rs) : Legitimate rs e
  | fault {f : Fault} (h : f.Legitimate) : Legitimate rs (.fault f)

namespace Error.Legitimate

variable {rs : List Rule} {e : Error}

theorem ne_unknownRule (h : e.Legitimate rs) (n : Name) : e ≠ .unknownRule n := by
  rintro rfl
  cases h with
  | hosts h =>
    obtain ⟨_, _, _, _, _, _, _, ⟨⟩⟩ := h

/-- Only the host can violate a contract. -/
theorem isHosts (h : e.Legitimate rs) (hv : e.IsContractViolation) : e.IsHosts rs := by
  cases h with
  | action => exact hv.elim
  | hosts h => exact h
  | fault h => cases h <;> simp [IsContractViolation, Fault.label] at hv

end Error.Legitimate

/-- A rule that fails to run gives the error of its action, or a fault of what the action answered
or failed with. -/
theorem Rule.run_legitimate {rs : List Rule} {r : Rule} (hr : r ∈ rs) (c : ActionContext) :
    FailsAs (Error.Legitimate rs) (r.run c) := by
  unfold run
  cases ha : r.action c with
  | error f =>
    dsimp only
    split
    · exact .error (.fault .unwritableInteger)
    · exact .error (.action _ _)
  | ok a =>
    intro e h
    obtain ⟨f, hf, rfl⟩ := lift_eq_error.mp h
    exact .hosts ⟨r, hr, c, a, f, ha, hf, rfl⟩

namespace Session

open Traced (EndsIn)

variable {s t : Session} {as : List Activation}

/-- A step of a reachable session finds its rule, so it fails at most as its action does, on the
answer of the action, or on a legitimate fault. -/
theorem step_legitimate (hs : s.Reachable) : EndsIn (Error.Legitimate s.rules) s.step := by
  cases hp : s.pending with
  | nil => exact .of_ok (step_eq_ok.mpr (.inl ⟨hp, rfl, rfl⟩))
  | cons a rest =>
    obtain ⟨r, hc⟩ := hs.calls (a := a) (by rw [hp]; rfl)
    exact step_endsIn (fun f => .fault) hp hc.rule (Rule.run_legitimate hc.mem_rules _)

theorem runSteps_legitimate (n : Nat) (hs : s.Reachable) :
    EndsIn (Error.Legitimate s.rules) (runSteps n s) := by
  induction n generalizing s with
  | zero => exact .pure _
  | succ n ih =>
    refine .bind (step_legitimate hs) fun ⟨t, o⟩ ht => ?_
    cases o with
    | none => exact .pure _
    | some a =>
      obtain ⟨s₀, as₀, h₀, hist⟩ := hs
      have hreach : t.Reachable := ⟨s₀, _, h₀, hist.trans (step_history ht)⟩
      have hruns := ih hreach
      rw [(step_keeps ht).1] at hruns
      exact .bind hruns fun _ _ => .pure _

/-! ## Budgets -/

theorem budget?_eq_error {v : Value} {f : Fault} (h : budget? v = .error f) :
    f = .notNumber v.className ∨ f = .negativeBudget := by
  unfold budget? at h
  split at h
  · cases h; exact .inl rfl
  · split at h
    · cases h; exact .inr rfl
    · split at h <;> cases h

/-- A run of a reachable session fails as a step does, or on its budget. -/
theorem run_eq_error {fuel : Nat} {given : Value} {e : Error} (hs : s.Reachable)
    (h : (s.run fuel given).value = .error e) :
    e.Legitimate s.rules ∨ e = .fault (.notNumber given.className) ∨
      e = .fault .negativeBudget := by
  simp only [run] at h
  split at h
  · rw [pure_bind] at h
    exact .inl (runSteps_legitimate _ hs e h)
  · rcases Traced.bind_value_eq_error.mp h with h | ⟨budget, -, h⟩
    · obtain ⟨f, hf, rfl⟩ := lift_eq_error.mp h
      rcases budget?_eq_error hf with rfl | rfl
      · exact .inr (.inl rfl)
      · exact .inr (.inr rfl)
    · exact .inl (runSteps_legitimate _ hs e h)

/-! ## Sessions -/

/-- The rules of the session have names, all different, under which each of them and nothing else is
found; each has a pattern, and fires once exactly in that mode; and every pending activation is one
that a rule of the session makes of a binding. -/
structure IsWellFormed (s : Session) : Prop where
  named : ∀ r ∈ s.rules, r.name.text ≠ ""
  distinct : s.rules.Pairwise fun r r' => r.name.text ≠ r'.name.text
  found : ∀ n r, s.rule? n = some r ↔ r ∈ s.rules ∧ r.name.text = n.text
  matched : ∀ r ∈ s.rules, r.patterns ≠ []
  once : ∀ r ∈ s.rules, r.once = true ↔ r.mode = .once
  pending : ∀ a ∈ s.pending, ∃ r ∈ s.rules, a.rule = r.name ∧ a.salience = r.salience ∧
    a.once = r.once ∧ Token.of r.name a.binding = .ok a.token

theorem rule?_iff (hn : s.rules.Pairwise fun r r' => r.name.text ≠ r'.name.text) {n : Name}
    {r : Rule} : s.rule? n = some r ↔ r ∈ s.rules ∧ r.name.text = n.text := by
  constructor
  · intro h
    exact ⟨List.mem_of_find?_eq_some h, by simpa using List.find?_some h⟩
  · intro ⟨hr, hname⟩
    rw [rule?, ← hname]
    exact rule?_eq_some hn hr

theorem Recorded.isWellFormed (hs : Recorded as s) : s.IsWellFormed where
  named r _ := r.name_ne_empty
  distinct := hs.names
  found _ _ := rule?_iff hs.names
  matched r _ := r.patterns_ne_nil
  once r _ := by rw [r.once_eq, beq_iff_eq]
  pending a ha := by
    rw [hs.upToDate.2] at ha
    obtain ⟨⟨r, hr, hact⟩, -⟩ := Agenda.mem_build.mp ha
    obtain ⟨b, hb, rfl⟩ := Rule.mem_activations.mp hact
    have hshown : (Value.map b).isOverlong = false := (hs.upToDate.1 r hr).2 b hb
    exact ⟨r, hr, rfl, rfl, rfl, Token.of_eq_ok.mpr ⟨hshown, rfl⟩⟩

/-- A session that is built has the rules of the source that counts, in their order. -/
theorem new_rules_eq {files : Files} {rules : Source} {base : OptionsBase}
    {optionRules : Option Source} {overrides : OptionEntries}
    (h : new files rules base optionRules overrides = .ok s) :
    ∃ source, chooseRules rules (splitRules base optionRules).2 = .ok source ∧
      source.compileAll files = .ok s.rules := by
  simp only [new, bind_eq_ok] at h
  obtain ⟨_, -, source, hsource, options, -, compiled, hcompiled, h⟩ := h
  unfold ofRules at h
  split at h
  · cases h
  · cases h
    exact ⟨source, hsource, hcompiled⟩

/-- Whatever a session is built from, if it is built, it has the rules of that source, and it is
well formed at the end of every history. So a step or a run never comes upon a pending activation
whose rule it does not know; nor does it fail in a way that could be taken for this, unless the host
does so itself while the answer of an action is gone through. -/
theorem wellFormed_throughout {files : Files} {rules : Source} {base : OptionsBase}
    {optionRules : Option Source} {overrides : OptionEntries} {s₀ s : Session}
    {as : List Activation} (hnew : new files rules base optionRules overrides = .ok s₀)
    (h : History s₀ as s) :
    (∃ source, chooseRules rules (splitRules base optionRules).2 = .ok source ∧
      source.compileAll files = .ok s.rules) ∧
    s.IsWellFormed ∧
    (∀ e, s.step.value = .error e →
      (∀ n, e ≠ .unknownRule n) ∧ (e.IsContractViolation → e.IsHosts s.rules)) ∧
    ∀ fuel given e, (s.run fuel given).value = .error e →
      (∀ n, e ≠ .unknownRule n) ∧ (e.IsContractViolation → e.IsHosts s.rules) := by
  have hisNew : IsNew s₀ := ⟨files, rules, base, optionRules, overrides, hnew⟩
  have hs : s.Reachable := ⟨s₀, as, hisNew, h⟩
  refine ⟨?_, (h.recorded hisNew).isWellFormed, fun e he => ?_, fun fuel given e he => ?_⟩
  · rw [h.keeps.1]
    exact new_rules_eq hnew
  · have hlegitimate := step_legitimate hs e he
    exact ⟨hlegitimate.ne_unknownRule, hlegitimate.isHosts⟩
  · rcases run_eq_error hs he with hlegitimate | rfl | rfl
    · exact ⟨hlegitimate.ne_unknownRule, hlegitimate.isHosts⟩
    all_goals exact ⟨nofun, by simp [Error.IsContractViolation, Fault.label]⟩

/-- A function that is declared to greet a single guest, by its mode alone. -/
def Sample.usher : HostFunction where
  name := some "usher"
  home := "hall"
  declaration := some ⟨none, [Sample.idOf "guest" "who"], .int 5, .bool false, .text "once", .none⟩
  action := fun _ => .ok (.effects [])

/-- A rule and a function in a nested list, and two guests: the usher has greeted one of them, both
are still to be welcomed, and nothing that can happen next comes upon a rule that is not known. -/
theorem wellFormed_throughout_guests : ∃ (s₀ s : Session) (as : List Activation),
    new (fun _ => none) (.tuple [.rule Sample.welcome, .list [.function Sample.usher]])
      (.value .none) none [] = .ok s₀ ∧ History s₀ as s ∧
    s.rules.map (fun r => (r.name.text, r.once, r.mode)) =
      [("welcome", false, .perFact), ("usher", true, .once)] ∧
    as.map (·.rule.text) = ["usher"] ∧
    s.pending.map (fun a => (a.rule.text, a.salience.amount)) = [("welcome", 0), ("welcome", 0)] ∧
    s.IsWellFormed ∧
    ∀ fuel given n, (s.run fuel given).value ≠ .error (.unknownRule n) := by
  let os : List Operation :=
    [.assertFact (Sample.fact "guest" (.int 1)), .assertFact (Sample.fact "guest" (.int 2)), .step]
  have hd : (new (fun _ => none) (.tuple [.rule Sample.welcome, .list [.function Sample.usher]])
      (.value .none) none [] >>= fun s₀ => s₀.replay os >>= fun r => pure
        (r.1.rules.map (fun r => (r.name.text, r.once, r.mode)), r.2.map (·.rule.text),
          r.1.pending.map fun a => (a.rule.text, a.salience.amount))).toOption =
        some ([("welcome", false, .perFact), ("usher", true, .once)], ["usher"],
          [("welcome", 0), ("welcome", 0)]) := by
    decide +kernel
  simp only [toOption_eq_some, bind_eq_ok, pure, Except.pure, Except.ok.injEq, Prod.mk.injEq] at hd
  obtain ⟨s₀, hnew, ⟨s, as⟩, hr, hrules, hfired, hpending⟩ := hd
  have h := replay_history hr
  obtain ⟨-, hwell, -, hrun⟩ := wellFormed_throughout hnew h
  exact ⟨s₀, s, as, hnew, h, hrules, hfired, hpending, hwell,
    fun fuel given n he => (hrun fuel given _ he).1 n rfl⟩

end Session

end RuleEngine
