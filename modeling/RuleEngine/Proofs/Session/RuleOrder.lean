import RuleEngine.Proofs.Agenda.Order
import RuleEngine.Proofs.Session.Failure
import RuleEngine.Proofs.Session.Firing

/-!
# The order of the rules plays no part

Two sessions that differ only in the order of their rules are run side by side through the same
calls. Rules are looked at in two places. A rebuild matches all of them, and the agenda it gives
does not depend on their order (`Agenda.build_perm`); if it fails, it fails in one way only,
whichever rule cannot be matched (`rebuild_fails`). A firing looks one of them up by its name, which
no other rule has. Everything else reads and writes what the two sessions share.

* `Reordered`: the relation of the two sessions, kept by each operation (`perform_agree`).
* `answers_perm`: sessions built of the same rules in different orders give the same answers to any
  sequence of calls.
-/

namespace RuleEngine.Session

open Traced (Agree AgreeUnless)

/-! ## Two sessions side by side -/

/-- The same session twice, with its rules in different orders. -/
inductive Reordered (rs rs' : List Rule) : Session → Session → Prop where
  | intro (v : View) : Reordered rs rs' ⟨v, rs⟩ ⟨v, rs'⟩

/-- The same session twice with the same answer. -/
inductive ReorderedWith {α : Type} (rs rs' : List Rule) : Session × α → Session × α → Prop where
  | intro (v : View) (a : α) : ReorderedWith rs rs' (⟨v, rs⟩, a) (⟨v, rs'⟩, a)

section

variable {rs rs' : List Rule} {s s' : Session} (hp : rs.Perm rs')
variable (hn : rs.Pairwise fun r r' => r.name.text ≠ r'.name.text)

include hp in
theorem isMatchable_perm (v : View) : IsMatchable ⟨v, rs⟩ ↔ IsMatchable ⟨v, rs'⟩ := by
  simp only [IsMatchable, hp.mem_iff]

include hp hn

theorem rule?_perm (v : View) (n : Name) : rule? ⟨v, rs⟩ n = rule? ⟨v, rs'⟩ n := by
  cases hf : rule? ⟨v, rs'⟩ n with
  | none =>
    have hnone := List.find?_eq_none.mp hf
    exact List.find?_eq_none.mpr fun r hr => hnone r (hp.subset hr)
  | some r =>
    have hr : r ∈ rs := hp.symm.subset (List.mem_of_find?_eq_some hf)
    have hname : r.name.text = n.text := by simpa using List.find?_some hf
    have hfound := rule?_eq_some (s := ⟨v, rs⟩) hn hr
    rwa [rule?, hname] at hfound

theorem freshAgenda_perm (v : View) : freshAgenda ⟨v, rs⟩ = freshAgenda ⟨v, rs'⟩ :=
  Agenda.build_perm hp hn

theorem isBuildable_perm (v : View) : IsBuildable ⟨v, rs⟩ ↔ IsBuildable ⟨v, rs'⟩ := by
  have hevent : builtEvent (rebuilt ⟨v, rs⟩) = builtEvent (rebuilt ⟨v, rs'⟩) := by
    rw [builtEvent, builtEvent, rebuilt, rebuilt, freshAgenda_perm hp hn]
  constructor
  · intro h
    exact ⟨(isMatchable_perm hp v).mp h.matchable, hevent ▸ h.told⟩
  · intro h
    exact ⟨(isMatchable_perm hp v).mpr h.matchable, hevent ▸ h.told⟩

theorem rebuild_agree (h : Reordered rs rs' s s') :
    Agree (Reordered rs rs') s.rebuild s'.rebuild := by
  obtain ⟨v⟩ := h
  by_cases hb : IsBuildable ⟨v, rs⟩
  · have hb' := (isBuildable_perm hp hn v).mp hb
    refine .ok (rebuild_eq_ok.mpr ⟨hb, rfl⟩) (rebuild_eq_ok.mpr ⟨hb', rfl⟩) ?_
    rw [rebuilt, rebuilt, freshAgenda_perm hp hn]
    exact .intro _
  · have hb' := mt (isBuildable_perm hp hn v).mpr hb
    exact .error (rebuild_fails hb) (rebuild_fails hb')

theorem change_agree (h : Reordered rs rs' s s') (c : Change) :
    Agree (Reordered rs rs') (s.change c) (s'.change c) := by
  obtain ⟨v⟩ := h
  unfold change
  refine AgreeUnless.bind_left fun md => AgreeUnless.bind_left fun r => ?_
  obtain ⟨m, k⟩ := r
  cases k with
  | none => exact rebuild_agree hp hn (.intro _)
  | some k =>
    exact AgreeUnless.bind_left (x := announce ⟨v, rs⟩ c md k) fun n =>
      rebuild_agree hp hn (.intro _)

theorem changeAll_agree (h : Reordered rs rs' s s') (es : List Effect) :
    Agree (Reordered rs rs') (s.changeAll es) (s'.changeAll es) := by
  induction es generalizing s s' with
  | nil => exact .pure h
  | cons e es ih =>
    unfold changeAll
    cases Change.ofEffect? e with
    | some c => exact (change_agree hp hn h c).bind fun t t' ht => ih ht
    | none => exact ih h

theorem interpret_agree (h : Reordered rs rs' s s') (es : List Effect) :
    Agree (Reordered rs rs') (s.interpret es) (s'.interpret es) := by
  refine (changeAll_agree hp hn h es).bind ?_
  intro t t' ⟨v⟩
  cases es with
  | nil => exact .pure (.intro v)
  | cons e es => exact .pure (.intro _)

theorem fire_agree (h : Reordered rs rs' s s') (a : Activation) :
    Agree (ReorderedWith rs rs') (s.fire a) (s'.fire a) := by
  obtain ⟨v⟩ := h
  unfold fire
  rw [rule?_perm hp hn]
  cases rule? ⟨v, rs'⟩ a.rule with
  | none => exact .error rfl rfl
  | some r =>
    -- the action sees the view, which is the same
    refine AgreeUnless.bind_left (x := Traced.ofExcept (r.run (context ⟨v, rs⟩ a.binding)))
      fun items => ?_
    refine AgreeUnless.bind_left fun es => ?_
    by_cases hpure : v.options.pure = true
    · simp only [remember, hpure, if_true, pure_bind]
      refine AgreeUnless.bind_left fun _ => ?_
      exact AgreeUnless.bind_left (x := Observer.notify _ (firedEvent ⟨v, rs⟩ r es)) fun _ =>
        .pure (.intro _ es)
    · simp only [remember, hpure, Bool.false_eq_true, if_false]
      refine (interpret_agree hp hn (.intro _) es).bind ?_
      intro _ _ ⟨w⟩
      refine AgreeUnless.bind_left fun _ => ?_
      exact AgreeUnless.bind_left (x := Observer.notify _ (firedEvent ⟨w, rs⟩ r es)) fun _ =>
        .pure (.intro w es)

theorem step_agree (h : Reordered rs rs' s s') :
    Agree (ReorderedWith rs rs') s.step s'.step := by
  obtain ⟨v⟩ := h
  unfold step
  cases hpend : v.pending with
  | nil =>
    simp only
    exact .pure (.intro v none)
  | cons a rest =>
    simp only
    refine (fire_agree hp hn (.intro { v with pending := rest }) a).bind ?_
    intro _ _ ⟨w, es⟩
    refine (rebuild_agree hp hn (.intro w)).bind ?_
    intro _ _ ⟨u⟩
    exact .pure (.intro _ (some a))

theorem runSteps_agree (n : Nat) (h : Reordered rs rs' s s') :
    Agree (ReorderedWith rs rs') (runSteps n s) (runSteps n s') := by
  induction n generalizing s s' with
  | zero =>
    obtain ⟨v⟩ := h
    exact .pure (.intro v [])
  | succ n ih =>
    refine (step_agree hp hn h).bind ?_
    intro _ _ ⟨v, o⟩
    cases o with
    | none => exact .pure (.intro v [])
    | some a =>
      refine (ih (.intro v)).bind ?_
      intro _ _ ⟨w, as⟩
      exact .pure (.intro w (a :: as))

theorem run_agree (fuel : Nat) (h : Reordered rs rs' s s') (maxSteps : Value) :
    Agree (ReorderedWith rs rs') (run fuel s maxSteps) (run fuel s' maxSteps) := by
  obtain ⟨v⟩ := h
  unfold run
  split
  · exact runSteps_agree hp hn _ (.intro v)
  · exact AgreeUnless.bind_left fun budget => runSteps_agree hp hn _ (.intro v)

theorem apply_agree (h : Reordered rs rs' s s') (items : List Item) :
    Agree (ReorderedWith rs rs') (s.apply items) (s'.apply items) := by
  refine AgreeUnless.bind_left fun es => ?_
  refine (interpret_agree hp hn h es).bind ?_
  intro _ _ ⟨v⟩
  exact .pure (.intro v es)

/-- Every operation keeps the two sessions together: it fails on both in the same way, or returns on
both and fires the same. -/
theorem perform_agree (h : Reordered rs rs' s s') (o : Operation) :
    Agree (ReorderedWith rs rs') (s.perform o) (s'.perform o) := by
  cases o with
  | assertFact fact | retract fact | upsert fact =>
    refine (change_agree hp hn h _).bind ?_
    intro _ _ ⟨v⟩
    exact .pure (.intro v [])
  | step =>
    refine (step_agree hp hn h).bind ?_
    intro _ _ ⟨v, a⟩
    exact .pure (.intro v a.toList)
  | run fuel maxSteps =>
    exact run_agree hp hn fuel h maxSteps
  | apply items =>
    refine (apply_agree hp hn h items).bind ?_
    intro _ _ ⟨v, es⟩
    exact .pure (.intro v [])

end

/-! ## Sequences of calls -/

/-- What a call leaves to be seen: the session but for its rules, its metrics, and what the call
fired. -/
structure Answer where
  view : View
  metrics : List (String × Nat)
  fired : List Activation

/-- What calls answer, one after another. A call that fails leaves the session as it was. -/
def answers (s : Session) : List Operation → List (Except Error Answer)
  | [] => []
  | o :: os => match (s.perform o).value with
    | .ok (t, as) => .ok ⟨t.toView, t.metrics, as⟩ :: answers t os
    | .error e => .error e :: answers s os

variable {rs rs' : List Rule}

theorem answers_eq (hp : rs.Perm rs') (hn : rs.Pairwise fun r r' => r.name.text ≠ r'.name.text)
    (v : View) (os : List Operation) : answers ⟨v, rs⟩ os = answers ⟨v, rs'⟩ os := by
  induction os generalizing v with
  | nil => rfl
  | cons o os ih =>
    unfold answers
    cases perform_agree hp hn (.intro v) o with
    | error hx hy => rw [hx, hy, ih v]
    | excused _ hexcuse => exact hexcuse.elim
    | ok hx hy hrel =>
      obtain ⟨w, as⟩ := hrel
      simp only [hx, hy, ih w]
      rfl

/-! ## New sessions -/

theorem duplicate?_of_distinct {seen : List String} {rs : List Rule}
    (hseen : ∀ r ∈ rs, r.name.text ∉ seen)
    (hn : rs.Pairwise fun r r' => r.name.text ≠ r'.name.text) : duplicate? seen rs = none := by
  induction rs generalizing seen with
  | nil => rfl
  | cons r rs ih =>
    obtain ⟨hr, hrs⟩ := List.forall_mem_cons.mp hseen
    obtain ⟨hne, hn⟩ := List.pairwise_cons.mp hn
    rw [duplicate?, if_neg (by simpa using hr)]
    refine ih ?_ hn
    intro x hx hmem
    rcases List.mem_cons.mp hmem with he | hmem
    · exact hne x hx he.symm
    · exact hrs x hx hmem

theorem ofRules_of_distinct (hn : rs.Pairwise fun r r' => r.name.text ≠ r'.name.text)
    (options : Options) : ofRules rs options = .ok ⟨.initial options, rs⟩ := by
  rw [ofRules, duplicate?_of_distinct (fun _ _ => List.not_mem_nil) hn]

theorem compileAll_rules (files : Files) (rs : List Rule) :
    (Source.list (rs.map .rule)).compileAll files = .ok rs := by
  have hfold : ∀ acc : List Rule, (rs.map Source.rule).foldlM
      (fun acc x => do return acc ++ (← x.compile files)) acc =
        (Except.ok (acc ++ rs) : Except Error (List Rule)) := by
    induction rs with
    | nil => intro acc; rw [List.append_nil]; rfl
    | cons r rs ih =>
      intro acc
      have hone : (Source.rule r).compile files = .ok [r] := rfl
      have hrest := ih (acc ++ [r])
      rw [List.append_assoc, List.singleton_append] at hrest
      rw [List.map_cons, List.foldlM_cons, hone]
      exact hrest
  exact hfold []

/-- Rules given as a list count, whatever they are, unless the options hold rules too. -/
theorem chooseRules_list (o : Option Source) :
    (∀ xs, chooseRules (.list xs) o = .ok (.list xs)) ∨
      ∀ xs, chooseRules (.list xs) o = misconfigured .rulesTwice := by
  cases o with
  | none => exact .inl fun xs => rfl
  | some source =>
    by_cases hm : isMissing source = true
    · exact .inl fun xs => if_pos hm
    · exact .inr fun xs => if_neg hm

/-- Whether a session can be built of a list of rules, and with which options, does not depend on
the rules. -/
theorem new_rules (files : Files) (base : OptionsBase) (optionRules : Option Source)
    (overrides : OptionEntries) : ∃ x : Except Error Options, ∀ rs : List Rule,
      (rs.Pairwise fun r r' => r.name.text ≠ r'.name.text) →
      new files (.list (rs.map .rule)) base optionRules overrides =
        x.map fun options => ⟨.initial options, rs⟩ := by
  cases hreserved : Fault.lift (Options.checkReserved reservedNames overrides) with
  | error e =>
    refine ⟨.error e, fun rs _ => ?_⟩
    rw [new, hreserved]
    rfl
  | ok _ =>
    rcases hsplit : splitRules base optionRules with ⟨b, o⟩
    rcases chooseRules_list o with hchoose | hchoose
    · refine ⟨Options.build b overrides, fun rs hn => ?_⟩
      simp only [new, hreserved, hsplit, hchoose]
      cases Options.build b overrides with
      | error e => rfl
      | ok options =>
        change ((Source.list (rs.map .rule)).compileAll files >>= fun rs => ofRules rs options) = _
        rw [compileAll_rules]
        exact ofRules_of_distinct hn options
    · refine ⟨misconfigured .rulesTwice, fun rs _ => ?_⟩
      simp only [new, hreserved, hsplit, hchoose]
      rfl

/-- Sessions built of the same rules, in whatever order, give the same answers to any sequence of
calls: the same facts, agendas, tokens, effects and metrics after every call, the same activations
fired in the same order, and the same errors. -/
theorem answers_perm {rs rs' : List Rule} (hp : rs.Perm rs')
    (hn : rs.Pairwise fun r r' => r.name.text ≠ r'.name.text) (files : Files) (base : OptionsBase)
    (optionRules : Option Source) (overrides : OptionEntries) (os : List Operation) :
    (new files (.list (rs.map .rule)) base optionRules overrides).map (answers · os) =
      (new files (.list (rs'.map .rule)) base optionRules overrides).map (answers · os) := by
  obtain ⟨x, hx⟩ := new_rules files base optionRules overrides
  have hn' : rs'.Pairwise fun r r' => r.name.text ≠ r'.name.text :=
    (hp.pairwise_iff fun h => h.symm).mp hn
  rw [hx rs hn, hx rs' hn']
  cases x with
  | error e => rfl
  | ok options => exact congrArg Except.ok (answers_eq hp hn _ os)

/-- The lobby with its two rules in either order: a guest comes, a target without a hash is refused,
another guest comes, and everything that can fire fires in the same order. -/
theorem answers_perm_guests : ∃ s s' : Session, s.rules ≠ s'.rules ∧
    new (fun _ => none) (.list ([Sample.welcome, Sample.greet].map .rule)) (.value .none) none [] =
      .ok s ∧
    new (fun _ => none) (.list ([Sample.greet, Sample.welcome].map .rule)) (.value .none) none [] =
      .ok s' ∧
    let os : List Operation :=
      [.assertFact (Sample.fact "guest" (.int 1)), .retract (.key (.list []) .none (.bool false)),
        .upsert (Sample.fact "guest" (.int 2)), .step, .run 9 .none]
    (s.answers os).map (fun x => x.toOption.map fun a => a.fired.map (·.rule.text)) =
      [some [], none, some [], some ["greet"], some ["welcome", "welcome"]] ∧
    s.answers os = s'.answers os := by
  let s' : Session := ⟨.initial .default, [Sample.greet, Sample.welcome]⟩
  have hs : new (fun _ => none) (.list ([Sample.welcome, Sample.greet].map .rule)) (.value .none)
      none [] = .ok Sample.lobby := rfl
  have hs' : new (fun _ => none) (.list ([Sample.greet, Sample.welcome].map .rule)) (.value .none)
      none [] = .ok s' := rfl
  refine ⟨Sample.lobby, s', ?_, hs, hs', ?_, ?_⟩
  · intro he
    have hname : "welcome" = "greet" := congrArg (fun rs => (rs.map (·.name.text)).headD "") he
    exact absurd hname (by decide)
  · decide +kernel
  · have h := answers_perm (.swap Sample.greet Sample.welcome []) Sample.lobby_isNew.eq_initial.2
      (fun _ => none) (.value .none) none []
      [.assertFact (Sample.fact "guest" (.int 1)), .retract (.key (.list []) .none (.bool false)),
        .upsert (Sample.fact "guest" (.int 2)), .step, .run 9 .none]
    rw [hs, hs'] at h
    exact Except.ok.inj h

end RuleEngine.Session
