import RuleEngine.Proofs.Session.Operation

/-!
# Histories of a session

A history is a sequence of public operations that return, each on the session the one before
answered; what it fires is the concatenation of what its operations fire. A session is reachable if
a history leads to it from one that `Session.new` built.

`Session.Preserved` lists what has to be shown of a single change, of the counting of effects and of
a single step; `Preserved.history` carries it through any history. A run is a chain of steps that
fire (`runSteps_fires`), and such a chain is a history itself (`Fires.history`), so whatever holds
at the end of every history also holds between the steps of a run.
-/

namespace RuleEngine.Session

variable {s t : Session} {as bs : List Activation}

/-- A public operation on a session, with its arguments. A run without a step budget is cut off
after `fuel` steps. -/
inductive Operation where
  | assertFact (fact : Value)
  | retract (target : Value)
  | upsert (fact : Value)
  | step
  | run (fuel : Nat) (maxSteps : Value)
  | apply (items : List Item)

/-- Performs an operation; the answer holds the activations it fired. -/
def perform (s : Session) : Operation → Traced (Session × List Activation)
  | .assertFact fact => do return (← s.assertFact fact, [])
  | .retract target => do return (← s.retract target, [])
  | .upsert fact => do return (← s.upsert fact, [])
  | .step => do
    let (s, a) ← s.step
    return (s, a.toList)
  | .run fuel maxSteps => s.run fuel maxSteps
  | .apply items => do
    let (s, _) ← s.apply items
    return (s, [])

/-- A sequence of operations that return, with the activations fired along it. -/
inductive History : Session → List Activation → Session → Prop where
  | refl (s : Session) : History s [] s
  | next {s t u : Session} {as bs : List Activation} {o : Operation} (h : History s as t)
      (perf : (t.perform o).value = .ok (u, bs)) : History s (as ++ bs) u

/-- The session is one that `Session.new` builds. -/
def IsNew (s : Session) : Prop :=
  ∃ files rules base optionRules overrides, new files rules base optionRules overrides = .ok s

/-- Some history leads to the session from a new one. -/
def Reachable (s : Session) : Prop := ∃ s₀ as, IsNew s₀ ∧ History s₀ as s

def replay (s : Session) : List Operation → Except Error (Session × List Activation)
  | [] => .ok (s, [])
  | o :: os => do
    let (s, as) ← (s.perform o).value
    let (s, bs) ← s.replay os
    return (s, as ++ bs)

theorem History.trans {u : Session} (h : History s as t) (k : History t bs u) :
    History s (as ++ bs) u := by
  induction k with
  | refl => rwa [List.append_nil]
  | next _ perf ih => rw [← List.append_assoc]; exact .next ih perf

/-- What has been replayed is a history. -/
theorem replay_history {os : List Operation} (h : s.replay os = .ok (t, as)) : History s as t := by
  induction os generalizing s as with
  | nil =>
    cases h
    exact .refl t
  | cons o os ih =>
    simp only [replay, bind_eq_ok, Prod.exists] at h
    obtain ⟨u, bs, hu, _, cs, hcs, ⟨⟩⟩ := h
    exact (History.next (.refl s) hu).trans (ih hcs)

/-! ## New sessions -/

theorem duplicate?_eq_none {seen : List String} {rs : List Rule} (h : duplicate? seen rs = none) :
    (∀ r ∈ rs, r.name.text ∉ seen) ∧ rs.Pairwise fun r r' => r.name.text ≠ r'.name.text := by
  induction rs generalizing seen with
  | nil => simp
  | cons r rs ih =>
    rw [duplicate?] at h
    split at h
    · cases h
    · rename_i hr
      obtain ⟨h1, h2⟩ := ih h
      refine ⟨?_, List.pairwise_cons.mpr ⟨?_, h2⟩⟩
      · intro x hx
        rcases List.mem_cons.mp hx with rfl | hx
        · simpa using hr
        · exact fun hm => h1 x hx (List.mem_cons_of_mem _ hm)
      · intro x hx he
        exact h1 x hx (by rw [he]; exact List.mem_cons_self)

/-- A new session has no history, and its rules have different names. -/
theorem IsNew.eq_initial (h : IsNew s) :
    s.toView = .initial s.options ∧ s.rules.Pairwise fun r r' => r.name.text ≠ r'.name.text := by
  obtain ⟨files, rules, base, optionRules, overrides, h⟩ := h
  simp only [new, bind_eq_ok] at h
  obtain ⟨_, -, _, -, options, -, compiled, -, h⟩ := h
  unfold ofRules at h
  split at h
  · cases h
  · rename_i hd
    cases h
    exact ⟨rfl, (duplicate?_eq_none hd).2⟩

/-! ## Steps of a run -/

theorem runSteps_succ_eq_ok {n : Nat} :
    (runSteps (n + 1) s).value = .ok (t, as) ↔
      (s.step.value = .ok (t, none) ∧ as = []) ∨
      ∃ u a bs, s.step.value = .ok (u, some a) ∧ (runSteps n u).value = .ok (t, bs) ∧
        as = a :: bs := by
  simp only [runSteps, Traced.bind_value_eq_ok, Prod.exists]
  constructor
  · rintro ⟨u, o, hu, h⟩
    cases o with
    | none =>
      simp only [Traced.pure_value, Except.ok.injEq, Prod.mk.injEq] at h
      obtain ⟨rfl, rfl⟩ := h
      exact .inl ⟨hu, rfl⟩
    | some a =>
      simp only [Traced.bind_value_eq_ok, Traced.pure_value, Except.ok.injEq, Prod.mk.injEq,
        Prod.exists] at h
      obtain ⟨_, bs, hbs, rfl, rfl⟩ := h
      exact .inr ⟨u, a, bs, hu, hbs, rfl⟩
  · rintro (⟨hu, rfl⟩ | ⟨u, a, bs, hu, hbs, rfl⟩)
    · exact ⟨t, none, hu, rfl⟩
    · refine ⟨u, some a, hu, ?_⟩
      simp only [Traced.bind_value_eq_ok, Traced.pure_value, Except.ok.injEq, Prod.mk.injEq,
        Prod.exists]
      exact ⟨t, bs, hbs, rfl, rfl⟩

theorem run_eq_ok {fuel : Nat} {v : Value} (h : (s.run fuel v).value = .ok (t, as)) :
    ∃ n, (runSteps n s).value = .ok (t, as) := by
  simp only [run] at h
  split at h
  · rw [pure_bind] at h
    exact ⟨_, h⟩
  · obtain ⟨n, -, h⟩ := Traced.bind_value_eq_ok.mp h
    exact ⟨_, h⟩

theorem perform_step_eq_ok :
    (s.perform .step).value = .ok (t, as) ↔ ∃ o, s.step.value = .ok (t, o) ∧ as = o.toList := by
  simp only [perform, Traced.bind_value_eq_ok, Traced.pure_value, Except.ok.injEq, Prod.mk.injEq,
    Prod.exists]
  constructor
  · rintro ⟨_, o, ho, rfl, rfl⟩
    exact ⟨o, ho, rfl⟩
  · rintro ⟨o, ho, rfl⟩
    exact ⟨t, o, ho, rfl, rfl⟩

theorem step_history {a : Activation} (h : s.step.value = .ok (t, some a)) : History s [a] t :=
  .next (o := .step) (.refl s) (perform_step_eq_ok.mpr ⟨some a, h, rfl⟩)

/-- Steps that return and fire, one after the other. -/
inductive Fires (next : Session → Traced (Session × Option Activation)) :
    Session → List Activation → Session → Prop where
  | refl (s : Session) : Fires next s [] s
  | next {s t u : Session} {a : Activation} {as : List Activation}
      (step : (next s).value = .ok (t, some a)) (rest : Fires next t as u) :
      Fires next s (a :: as) u

/-- A run is a chain of steps that fire. -/
theorem runSteps_fires {n : Nat} (h : (runSteps n s).value = .ok (t, as)) : Fires step s as t := by
  induction n generalizing s as with
  | zero =>
    cases h
    exact .refl t
  | succ n ih =>
    obtain ⟨hs, rfl⟩ | ⟨u, a, bs, hu, hbs, rfl⟩ := runSteps_succ_eq_ok.mp h
    · obtain ⟨-, rfl, -⟩ | ⟨_, _, _, _, -, ⟨⟩, -⟩ := step_eq_ok.mp hs
      exact .refl t
    · exact .next hu (ih hbs)

theorem Fires.history (h : Fires step s as t) : History s as t := by
  induction h with
  | refl s => exact .refl s
  | next hs _ ih => exact (step_history hs).trans ih

/-! ## What a history preserves -/

/-- What changes, the counting of effects and steps preserve. -/
structure Preserved (P : List Activation → Session → Prop) : Prop where
  change {as : List Activation} {s t : Session} {c : Change} :
    P as s → (s.change c).value = .ok t → P as t
  count {as : List Activation} {s : Session} (n : Nat) : P as s → P as (s.countEffects n)
  step {as : List Activation} {s t : Session} {a : Activation} :
    P as s → s.step.value = .ok (t, some a) → P (as ++ [a]) t

variable {P : List Activation → Session → Prop}

theorem Preserved.interpret (hP : Preserved P) {es : List Effect} (hs : P as s)
    (h : (s.interpret es).value = .ok t) : P as t := by
  obtain ⟨u, hu, rfl⟩ := interpret_eq_ok.mp h
  exact hP.count _ (changeAll_induction (fun _ _ _ hs hc => hP.change hs hc) hs hu)

theorem Preserved.fires (hP : Preserved P) (hs : P as s) (h : Fires Session.step s bs t) :
    P (as ++ bs) t := by
  induction h generalizing as with
  | refl => rwa [List.append_nil]
  | next hstep _ ih =>
    rw [List.append_cons]
    exact ih (hP.step hs hstep)

theorem Preserved.perform (hP : Preserved P) {o : Operation} (hs : P as s)
    (h : (s.perform o).value = .ok (t, bs)) : P (as ++ bs) t := by
  cases o with
  | assertFact fact | retract fact | upsert fact =>
    simp only [Session.perform, Traced.bind_value_eq_ok, Traced.pure_value, Except.ok.injEq,
      Prod.mk.injEq] at h
    obtain ⟨_, h, rfl, rfl⟩ := h
    rw [List.append_nil]
    exact hP.change hs h
  | step =>
    obtain ⟨o, ho, rfl⟩ := perform_step_eq_ok.mp h
    cases o with
    | some a => exact hP.step hs ho
    | none =>
      obtain ⟨-, rfl, -⟩ | ⟨_, _, _, _, -, ⟨⟩, -⟩ := step_eq_ok.mp ho
      rwa [Option.toList_none, List.append_nil]
  | run fuel v =>
    obtain ⟨n, hn⟩ := run_eq_ok h
    exact hP.fires hs (runSteps_fires hn)
  | apply items =>
    simp only [Session.perform, Traced.bind_value_eq_ok, Traced.pure_value, Except.ok.injEq,
      Prod.mk.injEq, Prod.exists] at h
    obtain ⟨_, es, h, rfl, rfl⟩ := h
    rw [List.append_nil]
    exact hP.interpret hs (apply_eq_ok.mp h).2

/-- What changes, the counting of effects and steps preserve, every history preserves. -/
theorem Preserved.history (hP : Preserved P) (hs : P as s) (h : History s bs t) :
    P (as ++ bs) t := by
  induction h with
  | refl => rwa [List.append_nil]
  | next _ perf ih => rw [← List.append_assoc]; exact hP.perform ih perf

/-- What holds of a session that has fired nothing holds of all that comes after it. -/
theorem Preserved.fromStart (hP : Preserved P) (hs : P [] s) (h : History s as t) : P as t :=
  hP.history hs h

theorem keeps_preserved (s : Session) :
    Preserved fun _ t => t.rules = s.rules ∧ t.options = s.options where
  change h hc := ⟨(change_keeps hc).rules.trans h.1, (change_keeps hc).options.trans h.2⟩
  count _ h := h
  step h hs := ⟨(step_keeps hs).1.trans h.1, (step_keeps hs).2.trans h.2⟩

theorem History.keeps (h : History s as t) : t.rules = s.rules ∧ t.options = s.options :=
  (keeps_preserved s).fromStart ⟨rfl, rfl⟩ h

/-! ## A sample

A rule that gives every guest a badge, in a session without options. -/

namespace Sample

def fact (kind : String) (id : Value) : Value := .map [(.text "kind", .text kind), (.text "id", id)]

def idOf (kind name : String) : Pattern where
  matcher f := match f.entry? "kind", f.entry? "id" with
    | some (.text k), some v => .ok (if k = kind then .map [(.text name, v)] else .none)
    | _, _ => .ok .none
  guard := none

def welcome : Rule where
  name := .ofText "welcome"
  patterns := [idOf "guest" "who"]
  action c := do
    let who ← c.binding.read "who"
    return .effects [.effect (.assert (fact "badge" who))]
  salience := .ofInt 0
  once := false
  mode := .perFact
  throttle := .none
  name_ne_empty := by decide
  patterns_ne_nil := List.cons_ne_nil _ _
  once_eq := rfl

def start : Session := ⟨.initial .default, [welcome]⟩

theorem start_isNew : IsNew start := ⟨fun _ => none, .rule welcome, .value .none, none, [], rfl⟩

end Sample

end RuleEngine.Session
