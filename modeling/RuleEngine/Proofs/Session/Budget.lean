import RuleEngine.Proofs.Session.Ending

/-!
# Budgets of a run

A run with a budget is that many steps, where a step of an idle session does nothing
(`runSteps_idle`). So a run may be broken off anywhere and taken up again: two runs after one
another are one run with the sum of their budgets (`runSteps_add`), to the last notice and to the
error if there is one. And a budget is used up unless the run comes upon an idle session first
(`runSteps_within`).
-/

namespace RuleEngine.Session

variable {s t : Session} {as : List Activation}

/-! ## Steps -/

theorem runSteps_idle (h : s.pending = []) (n : Nat) : runSteps n s = pure (s, []) := by
  have hstep : s.step = pure (s, none) := by
    unfold step
    rw [h]
  cases n with
  | zero => rfl
  | succ n => simp only [runSteps, hstep, pure_bind]

theorem runSteps_add (a b : Nat) (s : Session) :
    runSteps (a + b) s = do
      let (t, as) ← runSteps a s
      let (u, bs) ← runSteps b t
      return (u, as ++ bs) := by
  induction a generalizing s with
  | zero => simp [runSteps]
  | succ a ih =>
    rw [Nat.succ_add]
    cases hp : s.pending with
    | nil => simp [runSteps_idle hp]
    | cons x rest =>
      -- the step fires, so on either side it is followed by the runs of the session it leads to
      simp [runSteps, step, hp, ih]

/-- A run fires at most as often as it may step, and less often only if nothing is pending at its
end. -/
theorem runSteps_within {n : Nat} (h : (runSteps n s).value = .ok (t, as)) :
    as.length ≤ n ∧ (as.length < n → t.state = .idle) := by
  induction n generalizing s as with
  | zero => cases h; simp
  | succ n ih =>
    obtain ⟨hstep, rfl⟩ | ⟨u, a, bs, -, hrest, rfl⟩ := runSteps_succ_eq_ok.mp h
    · obtain ⟨hidle, rfl, -⟩ | ⟨_, _, _, _, -, ⟨⟩, -⟩ := step_eq_ok.mp hstep
      exact ⟨Nat.zero_le _, fun _ => state_eq_idle.mpr hidle⟩
    · have := ih hrest
      simp only [List.length_cons] at *
      exact ⟨by omega, fun hlt => this.2 (by omega)⟩

/-! ## Runs -/

theorem budget?_nat (n : Nat) : budget? (.int n) = .ok (some n) := by
  have hneg : (Number.whole n).lt (.whole 0) = false := by simp [Number.lt]
  simp [budget?, Value.number?, hneg, Number.ceiling?]

theorem run_nat (s : Session) (fuel n : Nat) : s.run fuel (.int n) = runSteps n s := by
  simp only [run, budget?_nat]
  exact pure_bind _ _

/-- Two runs after one another do what one run with both budgets does: they give the same notices,
fail on the same errors, and lead to the same session with the same activations fired, the ones of
the first run before those of the second. A run fires no more activations than its budget, and fewer
only if the session it ends in is idle. -/
theorem run_composes (s : Session) (fuel a b : Nat) :
    (s.run fuel (.int (a + b : Nat)) = do
      let (t, as) ← s.run fuel (.int a)
      let (u, bs) ← t.run fuel (.int b)
      return (u, as ++ bs)) ∧
    ∀ n t as, (s.run fuel (.int (n : Nat))).value = .ok (t, as) →
      as.length ≤ n ∧ (as.length < n → t.state = .idle) := by
  simp only [run_nat]
  exact ⟨runSteps_add a b s, fun n t as h => runSteps_within h⟩

/-- Two guests get a badge each and one of them is greeted. A run of two leaves one thing to do, and
a run of five does that and stops; a run of seven does all of it at once. -/
theorem run_composes_guests : ∃ (s t u : Session) (as bs : List Activation),
    s.Reachable ∧ (s.run 0 (.int 2)).value = .ok (t, as) ∧ as.length = 2 ∧ t.state = .ready ∧
    (t.run 0 (.int 5)).value = .ok (u, bs) ∧ bs.length = 1 ∧ u.state = .idle ∧
    (s.run 0 (.int 7)).value = .ok (u, as ++ bs) := by
  let os : List Operation :=
    [.assertFact (Sample.fact "guest" (.int 1)), .assertFact (Sample.fact "guest" (.int 2))]
  have hd : (Sample.lobby.replay os >>= fun r => (r.1.run 0 (.int 2)).value >>= fun p =>
      (p.1.run 0 (.int 5)).value >>= fun q => pure
        (p.2.length, decide (p.1.state = .ready), q.2.length)).toOption = some (2, true, 1) := by
    decide +kernel
  simp only [toOption_eq_some, bind_eq_ok, pure, Except.pure, Except.ok.injEq, Prod.mk.injEq] at hd
  obtain ⟨⟨s, cs⟩, hr, ⟨t, as⟩, ht, ⟨u, bs⟩, hu, hlength, hready, hlength'⟩ := hd
  have hreachable : s.Reachable := ⟨_, _, Sample.lobby_isNew, replay_history hr⟩
  have hidle : u.state = .idle := by
    obtain ⟨-, hexact⟩ := (run_composes t 0 0 0).2 5 u bs hu
    have : bs.length = 1 := hlength'
    exact hexact (by omega)
  have hready : t.state = .ready := of_decide_eq_true hready
  refine ⟨s, t, u, as, bs, hreachable, ht, hlength, hready, hu, hlength', hidle, ?_⟩
  have hsum : s.run 0 (.int 7) = _ := (run_composes s 0 2 5).1
  rw [hsum]
  exact Traced.bind_value_eq_ok.mpr ⟨_, ht, Traced.bind_value_eq_ok.mpr ⟨_, hu, rfl⟩⟩

end RuleEngine.Session
