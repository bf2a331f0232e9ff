import RuleEngine.Proofs.Session.Freshness

/-!
# No activation fires twice

`Recorded as s` is the invariant of a history that has fired `as`: the tokens of the session are
those of `as` in order, its once tokens those of the `once` activations among them, and no two of
them clash. A step keeps it (`recorded_step`) because what it fires comes from the current agenda,
which holds nothing spent, and because the token is remembered before the effects are interpreted
and nothing the effects do takes it away again.

* `fires_once`: along any history the fired tokens differ, no later agenda holds one of them again,
  a `once` rule fires at most once, and tokens are never lost.
-/

namespace RuleEngine.Session

variable {s t : Session} {as bs : List Activation}

/-- The activation belongs to a rule and carries that rule's name and flags and its own token. -/
def Supported (s : Session) (a : Activation) : Prop :=
  ∃ r ∈ s.rules, ∃ b, a = Activation.make r.name b r.salience r.once

/-- What has fired is what the tokens say, and no two firings clash. -/
structure Recorded (as : List Activation) (s : Session) : Prop where
  names : s.rules.Pairwise fun r r' => r.name.text ≠ r'.name.text
  upToDate : s.IsUpToDate
  tokens : s.tokens = as.map (·.token)
  onceTokens : s.onceTokens = (as.filter (·.once)).map (·.token)
  supported : ∀ a ∈ as, s.Supported a
  distinct : as.Pairwise fun a b => (a.token == b.token) = false
  onceDistinct : (as.filter (·.once)).Pairwise fun a b => a.rule.text ≠ b.rule.text

theorem Supported.token_rule {a : Activation} (h : s.Supported a) : a.token.rule = a.rule := by
  obtain ⟨r, -, b, rfl⟩ := h
  rfl

/-! ## One step -/

theorem rule?_eq_some (hn : s.rules.Pairwise fun r r' => r.name.text ≠ r'.name.text) {r : Rule}
    (hr : r ∈ s.rules) : s.rule? r.name = some r := by
  unfold rule?
  generalize s.rules = rules at hn hr
  induction rules with
  | nil => cases hr
  | cons x xs ih =>
    obtain ⟨hx, hn⟩ := List.pairwise_cons.mp hn
    rcases List.mem_cons.mp hr with rfl | hr
    · simp
    · rw [List.find?_cons_of_neg (by simpa using hx r hr)]
      exact ih hn hr

theorem rule_eq (hn : s.rules.Pairwise fun r r' => r.name.text ≠ r'.name.text) {r r' : Rule}
    (hr : r ∈ s.rules) (hr' : r' ∈ s.rules) (h : r.name.text = r'.name.text) : r = r' := by
  have hfound := rule?_eq_some hn hr
  have hfound' := rule?_eq_some hn hr'
  rw [rule?, h, ← rule?, hfound'] at hfound
  exact (Option.some.inj hfound).symm

theorem add_eq_append {x : Token} {ts : List Token} (h : ∀ t ∈ ts, (t == x) = false) :
    x.add ts = ts ++ [x] := by
  unfold Token.add
  rw [if_neg (by simpa using h)]

theorem step_fired {a : Activation} (h : s.step.value = .ok (t, some a)) :
    a ∈ s.pending ∧ ∃ r, s.rule? a.rule = some r ∧
      t.tokens = a.token.add s.tokens ∧
      t.onceTokens = if r.once then a.token.add s.onceTokens else s.onceTokens := by
  obtain ⟨-, -, ⟨⟩⟩ | ⟨_, rest, u, es, hp, ⟨⟩, hf, -, rfl⟩ := step_eq_ok.mp h
  obtain ⟨r, items, hr, -, -, hu, -⟩ := fire_eq_ok.mp hf
  have hk : Keeps (remember { s with pending := rest } r a.token) u := by
    split at hu
    · rw [hu]
      exact .refl _
    · exact interpret_keeps hu
  exact ⟨by rw [hp]; exact List.mem_cons_self, r, hr, hk.tokens, hk.onceTokens⟩

/-- What a step fires belongs to a rule and is not spent, so its token is appended to the others. -/
theorem step_appends (hn : s.rules.Pairwise fun r r' => r.name.text ≠ r'.name.text)
    (hu : s.IsUpToDate) {a : Activation} (h : s.step.value = .ok (t, some a)) :
    s.Supported a ∧ ¬ Agenda.IsSpent s.tokens s.onceTokens a ∧
      t.tokens = s.tokens ++ [a.token] ∧
      t.onceTokens = s.onceTokens ++ if a.once then [a.token] else [] := by
  obtain ⟨ha, r, hr, htokens, honce⟩ := step_fired h
  rw [hu.2] at ha
  obtain ⟨⟨r', hr', hact⟩, hspent⟩ := Agenda.mem_build.mp ha
  obtain ⟨b, -, hb⟩ := Rule.mem_activations.mp hact
  have hname : a.rule = r'.name := by rw [hb]; rfl
  obtain rfl : r' = r := by
    rw [hname, rule?_eq_some hn hr'] at hr
    exact Option.some.inj hr
  have hro : a.once = r'.once := by rw [hb]; rfl
  have hspent' := hspent
  simp only [Agenda.IsSpent, not_or, not_exists, not_and, Bool.not_eq_true] at hspent'
  obtain ⟨hnew, hopen⟩ := hspent'
  refine ⟨⟨r', hr', b, hb⟩, hspent, by rw [htokens, add_eq_append hnew], ?_⟩
  rw [honce, ← hro]
  cases ho : a.once with
  | false => exact (List.append_nil _).symm
  | true =>
    -- an equal once token would name the rule, and the rule is not spent
    refine add_eq_append fun x hx => Bool.eq_false_iff.mpr fun he => hopen ho x hx ?_
    have hn : (x.rule.text == a.token.rule.text) = true := (Bool.and_eq_true _ _ ▸ he).1
    rw [hname, beq_iff_eq.mp hn, hb]
    rfl

theorem recorded_step {a : Activation} (hs : Recorded as s) (h : s.step.value = .ok (t, some a)) :
    Recorded (as ++ [a]) t := by
  obtain ⟨hsup, hspent, htokens, honce⟩ := step_appends hs.names hs.upToDate h
  have hrules := (step_keeps h).1
  simp only [Agenda.IsSpent, not_or, not_exists, not_and, Bool.not_eq_true] at hspent
  obtain ⟨hnew, hopen⟩ := hspent
  refine ⟨by rw [hrules]; exact hs.names, step_isUpToDate h, ?_, ?_, ?_, ?_, ?_⟩
  · rw [htokens, hs.tokens, List.map_append, List.map_singleton]
  · rw [honce, hs.onceTokens, List.filter_append, List.map_append]
    cases ho : a.once <;> simp [ho]
  · intro y hy
    rw [Supported, hrules]
    rcases List.mem_append.mp hy with hy | hy
    · exact hs.supported y hy
    · rw [List.mem_singleton.mp hy]
      exact hsup
  · refine List.pairwise_append.mpr ⟨hs.distinct, List.pairwise_singleton _ _, fun y hy z hz => ?_⟩
    rw [List.mem_singleton.mp hz]
    exact hnew y.token (by rw [hs.tokens]; exact List.mem_map_of_mem hy)
  · rw [List.filter_append]
    refine List.pairwise_append.mpr ⟨hs.onceDistinct, ?_, fun y hy z hz => ?_⟩
    · cases ho : a.once <;> simp [ho]
    · obtain ⟨hz, ho⟩ := List.mem_filter.mp hz
      obtain rfl := List.mem_singleton.mp hz
      have hn := hopen ho y.token (by rw [hs.onceTokens]; exact List.mem_map_of_mem hy)
      rwa [(hs.supported y (List.mem_filter.mp hy).1).token_rule] at hn

/-! ## Histories -/

theorem recorded_preserved : Preserved Recorded where
  change hs h := by
    have hk := change_keeps h
    exact ⟨by rw [hk.rules]; exact hs.names, change_isUpToDate h,
      by rw [hk.tokens]; exact hs.tokens, by rw [hk.onceTokens]; exact hs.onceTokens,
      fun a ha => by rw [Supported, hk.rules]; exact hs.supported a ha, hs.distinct,
      hs.onceDistinct⟩
  count _ hs := ⟨hs.names, hs.upToDate, hs.tokens, hs.onceTokens, hs.supported, hs.distinct,
    hs.onceDistinct⟩
  step hs h := recorded_step hs h

theorem IsNew.recorded (h : IsNew s) : Recorded [] s := by
  obtain ⟨hv, hn⟩ := h.eq_initial
  exact ⟨hn, h.isUpToDate, by rw [hv]; rfl, by rw [hv]; rfl, fun a ha => (nomatch ha), .nil, .nil⟩

theorem History.recorded (h : History s as t) (hs : IsNew s) : Recorded as t :=
  recorded_preserved.fromStart hs.recorded h

theorem Recorded.onceToken_mem (hs : Recorded as s) {x : Token} (hx : x ∈ s.onceTokens) :
    x ∈ s.tokens ∧ ∃ r ∈ s.rules, r.once = true ∧ r.name = x.rule := by
  rw [hs.onceTokens] at hx
  obtain ⟨a, ha, rfl⟩ := List.mem_map.mp hx
  obtain ⟨ha, ho⟩ := List.mem_filter.mp ha
  refine ⟨by rw [hs.tokens]; exact List.mem_map_of_mem ha, ?_⟩
  obtain ⟨r, hr, b, rfl⟩ := hs.supported a ha
  exact ⟨r, hr, ho, rfl⟩

theorem Recorded.onceTokens_pairwise (hs : Recorded as s) :
    s.onceTokens.Pairwise fun x y => x.rule.text ≠ y.rule.text := by
  rw [hs.onceTokens, List.pairwise_map]
  refine hs.onceDistinct.imp_of_mem fun ha hb h => ?_
  rwa [(hs.supported _ (List.mem_filter.mp ha).1).token_rule,
    (hs.supported _ (List.mem_filter.mp hb).1).token_rule]

theorem filter_length_le_one {α β : Type} [BEq β] [LawfulBEq β] {f : α → β} {xs : List α}
    (h : xs.Pairwise fun x y => f x ≠ f y) (k : β) : (xs.filter fun x => f x == k).length ≤ 1 := by
  induction xs with
  | nil => simp
  | cons x xs ih =>
    obtain ⟨hx, h⟩ := List.pairwise_cons.mp h
    by_cases hk : f x = k
    · have he : (xs.filter fun y => f y == k) = [] := by
        refine List.filter_eq_nil_iff.mpr fun y hy => ?_
        rw [← hk, beq_iff_eq]
        exact (hx y hy).symm
      simp [hk, he]
    · rw [List.filter_cons_of_neg (by simpa using hk)]
      exact ih h

/-- Of a `once` rule at most one activation has fired. -/
theorem Recorded.once_fired (hs : Recorded as s) {r : Rule} (hr : r ∈ s.rules)
    (ho : r.once = true) : (as.filter fun a => a.rule.text == r.name.text).length ≤ 1 := by
  have hsub : ∀ a ∈ as, (a.rule.text == r.name.text) = true → a.once = true := by
    intro a ha hn
    obtain ⟨r', hr', b, rfl⟩ := hs.supported a ha
    rw [rule_eq hs.names hr hr' (beq_iff_eq.mp hn).symm] at ho
    exact ho
  have hf : (as.filter fun a => a.rule.text == r.name.text) =
      (as.filter (·.once)).filter fun a => a.rule.text == r.name.text := by
    rw [List.filter_filter]
    refine List.filter_congr fun a ha => ?_
    cases hn : a.rule.text == r.name.text with
    | false => rfl
    | true => rw [hsub a ha hn, Bool.true_and]
  rw [hf]
  exact filter_length_le_one hs.onceDistinct _

/-- No activation fires twice. Along any history the tokens are those of what has fired, in order,
and all different; no later agenda holds one of them again; a `once` rule has fired at most once;
tokens and once tokens only grow, and the once tokens are tokens of different `once` rules. -/
theorem fires_once {s₀ s t : Session} {as bs : List Activation} (hnew : IsNew s₀)
    (h : History s₀ as s) (k : History s bs t) :
    t.tokens = (as ++ bs).map (·.token) ∧
    (as ++ bs).Pairwise (fun a b => (a.token == b.token) = false) ∧
    (∀ a ∈ as ++ bs, ∀ b ∈ t.pending, (a.token == b.token) = false) ∧
    (∀ r ∈ t.rules, r.once = true →
      ((as ++ bs).filter fun a => a.rule.text == r.name.text).length ≤ 1) ∧
    s.tokens <+: t.tokens ∧ s.onceTokens <+: t.onceTokens ∧
    t.onceTokens.Pairwise (fun x y => x.rule.text ≠ y.rule.text) ∧
    ∀ x ∈ t.onceTokens, x ∈ t.tokens ∧ ∃ r ∈ t.rules, r.once = true ∧ r.name = x.rule := by
  have hs := h.recorded hnew
  have ht := (h.trans k).recorded hnew
  refine ⟨ht.tokens, ht.distinct, ?_, fun r hr ho => ht.once_fired hr ho, ?_, ?_,
    ht.onceTokens_pairwise, fun x hx => ht.onceToken_mem hx⟩
  · intro a ha b hb
    rw [ht.upToDate.2] at hb
    have hspent := (Agenda.mem_build.mp hb).2
    simp only [Agenda.IsSpent, not_or, not_exists, not_and, Bool.not_eq_true] at hspent
    exact hspent.1 a.token (by rw [ht.tokens]; exact List.mem_map_of_mem ha)
  · rw [hs.tokens, ht.tokens, List.map_append]
    exact List.prefix_append _ _
  · rw [hs.onceTokens, ht.onceTokens, List.filter_append, List.map_append]
    exact List.prefix_append _ _

def Sample.greet : Rule :=
  { Sample.welcome with
    name := .ofText "greet"
    once := true
    mode := .once
    name_ne_empty := by decide
    once_eq := rfl }

/-- A session in which every guest gets a badge and one of them is greeted. -/
def Sample.lobby : Session := ⟨.initial .default, [Sample.welcome, Sample.greet]⟩

theorem Sample.lobby_isNew : IsNew Sample.lobby :=
  ⟨fun _ => none, .list [.rule Sample.welcome, .rule Sample.greet], .value .none, none, [], rfl⟩

/-- Two guests come, one leaves and returns, and everything that can fire has fired: two badges and
one greeting, and then nothing is pending. -/
theorem fires_once_guests : ∃ (s t : Session) (as bs : List Activation),
    History Sample.lobby as s ∧ History s bs t ∧ as.length = 1 ∧ (as ++ bs).length = 3 ∧
    (as ++ bs).Pairwise (fun a b => (a.token == b.token) = false) ∧
    s.tokens <+: t.tokens ∧ t.onceTokens.length = 1 := by
  let os : List Operation := [.assertFact (Sample.fact "guest" (.int 1)), .step]
  let ps : List Operation :=
    [.retract (Sample.fact "guest" (.int 1)), .assertFact (Sample.fact "guest" (.int 2)),
      .assertFact (Sample.fact "guest" (.int 1)), .run 9 .none]
  have hd : (Sample.lobby.replay os >>= fun r => r.1.replay ps >>= fun q =>
      pure (r.2.length, (r.2 ++ q.2).length, q.1.onceTokens.length)).toOption = some (1, 3, 1) := by
    decide +kernel
  simp only [toOption_eq_some, bind_eq_ok, pure, Except.pure, Except.ok.injEq, Prod.mk.injEq] at hd
  obtain ⟨r, hr, q, hq, h1, h2, h3⟩ := hd
  have hs := replay_history hr
  have ht := replay_history hq
  obtain ⟨-, hp, -, -, htok, -⟩ := fires_once Sample.lobby_isNew hs ht
  exact ⟨r.1, q.1, r.2, q.2, hs, ht, h1, h2, hp, htok, h3⟩

end RuleEngine.Session
