import RuleEngine.Proofs.Memory.Edit
import RuleEngine.Proofs.Session.Firing

/-!
# What the counters of a session say

Counters and what they count change in different places: a change of the facts is counted before the
agenda is built anew, a firing before its effects are interpreted, and the build that belongs to it
comes last. `Accounts s t n owed` ties the counters of two sessions of a history to their facts and
to each other, when `n` activations have fired between them; `owed` builds are still to come, which
is what an invariant between the two ends of a step has to allow for.

* `Memory.Edit.accounts`: what one edit does to the counters and to the number of facts.
* `change_accounts`, `step_accounts`: a change owes nothing, and a step pays what it owes.
* `Recorded.onceTokens_length`: there are as many once tokens as `once` rules that have fired.
* `metrics_account`: what the metrics of a reachable session say about each other, about what has
  fired, and about the metrics of every later session.
-/

namespace RuleEngine

/-- The changes of the facts that the counters have counted. -/
def Counters.changes (c : Counters) : Nat := c.asserted + c.retracted + c.upserted

/-- What the counters have counted when some facts were there, became other facts: every fact that
has come was asserted or upserted, every one that has gone was retracted. -/
structure Counters.Accounts (c d : Counters) (before after : Nat) : Prop where
  asserted : c.asserted ≤ d.asserted
  retracted : c.retracted ≤ d.retracted
  upserted : c.upserted ≤ d.upserted
  agendaBuilds : c.agendaBuilds ≤ d.agendaBuilds
  effects : c.effects ≤ d.effects
  least : before + c.retracted + d.asserted ≤ after + d.retracted + c.asserted
  greatest : after + d.retracted + c.asserted + c.upserted ≤
    before + c.retracted + d.asserted + d.upserted

theorem Counters.Accounts.refl (c : Counters) (n : Nat) : Accounts c c n n := by
  constructor <;> omega

theorem Counters.Accounts.trans {c d e : Counters} {k m n : Nat} (h : Accounts c d k m)
    (h' : Accounts d e m n) : Accounts c e k n := by
  obtain ⟨h1, h2, h3, h4, h5, h6, h7⟩ := h
  obtain ⟨g1, g2, g3, g4, g5, g6, g7⟩ := h'
  constructor <;> omega

/-- One edit of the facts is counted at most once. A fact more was asserted or upserted, a fact less
retracted. -/
theorem Memory.Edit.accounts {m n : Memory} {k : FactKey} {c : Change} {r : Option FactKey}
    (h : Memory.Edit m k c n r) (x : Counters) :
    let y := if r.isSome then c.count x else x
    x.Accounts y m.size n.size ∧ y.changes ≤ x.changes + 1 ∧ y.fired = x.fired ∧
      y.agendaBuilds = x.agendaBuilds := by
  have hmiddle {as bs : List (FactKey × Value)} {e : FactKey × Value} :
      (as ++ e :: bs).length = as.length + bs.length + 1 := by
    simp; omega
  cases h with
  | known | equal | absent => exact ⟨.refl x m.size, by simp, rfl, rfl⟩
  | asserted | inserted =>
    refine ⟨?_, by simp [Change.count, Counters.changes]; omega, rfl, rfl⟩
    constructor <;> simp [Change.count, Memory.size] <;> omega
  | replaced split | removed split =>
    refine ⟨?_, by simp [Change.count, Counters.changes]; omega, rfl, rfl⟩
    constructor <;> simp only [Change.count, Memory.size, split, hmiddle, List.length_append] <;>
      simp <;> omega

namespace Session

variable {s t u : Session} {as bs : List Activation} {n m owed due : Nat}

/-! ## From one session to another -/

/-- The counters of two sessions of a history between which `n` activations have fired: they account
for the facts, none has gone down, the firings are counted, and as many agendas have been built as
there were changes and firings, but for those that are owed. -/
structure Accounts (s t : Session) (n owed : Nat) : Prop where
  facts : s.counters.Accounts t.counters s.memory.size t.memory.size
  fired : t.counters.fired = s.counters.fired + n
  builds : t.counters.changes + t.counters.fired + s.counters.agendaBuilds ≤
    s.counters.changes + s.counters.fired + t.counters.agendaBuilds + owed

theorem Accounts.refl (s : Session) : s.Accounts s 0 0 := ⟨.refl _ _, by omega, by omega⟩

theorem Accounts.trans (h : s.Accounts t n owed) (k : t.Accounts u m due) :
    s.Accounts u (n + m) (owed + due) := by
  refine ⟨h.facts.trans k.facts, ?_, ?_⟩
  · have := h.fired; have := k.fired; omega
  · have := h.builds; have := k.builds; omega

/-- A build pays for one that is owed. -/
theorem Accounts.rebuilt (h : s.Accounts t n (owed + 1)) : s.Accounts t.rebuilt n owed := by
  obtain ⟨⟨h1, h2, h3, h4, h5, h6, h7⟩, hfired, hbuilds⟩ := h
  refine ⟨⟨h1, h2, h3, Nat.le_succ_of_le h4, h5, h6, h7⟩, hfired, ?_⟩
  simp only [Session.rebuilt, Counters.changes] at *
  omega

theorem countEffects_accounts (s : Session) (k : Nat) : s.Accounts (s.countEffects k) 0 0 := by
  refine ⟨?_, rfl, by simp [countEffects, Counters.changes]⟩
  constructor <;> simp [countEffects]

theorem remember_accounts (s : Session) (r : Rule) (x : Token) :
    s.Accounts (s.remember r x) 1 1 := by
  refine ⟨?_, rfl, by simp [remember, Counters.changes]; omega⟩
  constructor <;> simp [remember]

theorem change_accounts {c : Change} (h : (s.change c).value = .ok t) : s.Accounts t 0 0 := by
  obtain ⟨m, k, ⟨_, -, hrun, -⟩, -, rfl⟩ := change_eq_ok.mp h
  obtain ⟨_, -, -, hedit⟩ := Memory.run_edit hrun
  obtain ⟨hfacts, hchanges, hfired, hbuilds⟩ := hedit.accounts s.counters
  refine Accounts.rebuilt ⟨hfacts, hfired, ?_⟩
  simp only [changed] at *
  omega

theorem interpret_accounts {es : List Effect} (h : (s.interpret es).value = .ok t) :
    s.Accounts t 0 0 := by
  obtain ⟨u, hu, rfl⟩ := interpret_eq_ok.mp h
  have hu : s.Accounts u 0 0 :=
    changeAll_induction (P := (s.Accounts · 0 0))
      (fun _ _ _ hs hc => hs.trans (change_accounts hc)) (.refl s) hu
  exact hu.trans (countEffects_accounts u _)

/-- A step owes the last build while its effects are interpreted, and ends with it. -/
theorem step_accounts {a : Activation} (h : s.step.value = .ok (t, some a)) :
    s.Accounts t 1 0 := by
  obtain ⟨-, -, ⟨⟩⟩ | ⟨b, rest, u, es, -, -, hf, -, rfl⟩ := step_eq_ok.mp h
  obtain ⟨r, items, -, -, -, hu, -⟩ := fire_eq_ok.mp hf
  have hfired : s.Accounts (remember { s with pending := rest } r b.token) 1 1 := by
    obtain ⟨hfacts, hcount, hbuilds⟩ := remember_accounts { s with pending := rest } r b.token
    exact ⟨hfacts, hcount, hbuilds⟩
  have hall : s.Accounts u 1 1 := by
    split at hu
    · rw [hu]; exact hfired
    · exact hfired.trans (interpret_accounts hu)
  obtain ⟨hfacts, hcount, hbuilds⟩ := hall.rebuilt
  exact ⟨hfacts, hcount, hbuilds⟩

/-! ## Histories -/

theorem accounts_preserved (s : Session) : Preserved fun as t => s.Accounts t as.length 0 where
  change hs h := hs.trans (change_accounts h)
  count k hs := hs.trans (countEffects_accounts _ k)
  step hs h := by
    rw [List.length_append, List.length_singleton]
    exact hs.trans (step_accounts h)

/-- The counters of two sessions of a history account for what lies between them. -/
theorem History.accounts (h : History s as t) : s.Accounts t as.length 0 :=
  (accounts_preserved s).fromStart (.refl s) h

/-- Whether some of these activations fired the rule. -/
def hasFired (as : List Activation) (r : Rule) : Bool := as.any fun a => a.rule.text == r.name.text

/-- There are as many once tokens as there are `once` rules that have fired. -/
theorem Recorded.onceTokens_length (hs : Recorded as s) :
    s.onceTokens.length = (s.rules.filter fun r => r.once && hasFired as r).length := by
  -- both are counted by the names of the rules, which differ on either side
  have hperm : ((as.filter (·.once)).map (·.rule.text)).Perm
      ((s.rules.filter fun r => r.once && hasFired as r).map (·.name.text)) := by
    refine (List.perm_ext_iff_of_nodup ?_ ?_).mpr fun x => ?_
    · exact List.pairwise_map.mpr hs.onceDistinct
    · exact List.pairwise_map.mpr (hs.names.sublist List.filter_sublist)
    · simp only [List.mem_map, List.mem_filter, Bool.and_eq_true, hasFired, List.any_eq_true,
        beq_iff_eq]
      constructor
      · rintro ⟨a, ⟨ha, honce⟩, rfl⟩
        obtain ⟨r, hr, b, rfl⟩ := hs.supported a ha
        exact ⟨r, ⟨hr, honce, _, ha, rfl⟩, rfl⟩
      · rintro ⟨r, ⟨hr, honce, a, ha, hname⟩, rfl⟩
        obtain ⟨r', hr', b, rfl⟩ := hs.supported a ha
        obtain rfl := rule_eq hs.names hr' hr hname
        exact ⟨_, ⟨ha, honce⟩, rfl⟩
  rw [hs.onceTokens, List.length_map]
  simpa using hperm.length_eq

/-! ## Metrics -/

/-- What the metrics of a session say under a name. -/
def metric (s : Session) (name : String) : Nat := (s.metrics.lookup name).getD 0

def counterNames : List String :=
  ["asserted", "retracted", "upserted", "agenda_builds", "fired", "effects"]

/-- The metrics of a session match its state and its history. As many firings are counted as there
are tokens, all different, and as activations have fired; as many once tokens as there are `once`
rules that have fired. The facts there are lie between those that were asserted and those that were
asserted or upserted, less those that were retracted. An agenda was built for every change of the
facts and every firing. And no counter is lower in any later session. -/
theorem metrics_account {s₀ s t : Session} {as bs : List Activation} (hnew : IsNew s₀)
    (h : History s₀ as s) (k : History s bs t) :
    (s.metric "fired" = s.metric "tokens" ∧ s.metric "fired" = as.length ∧
      s.tokens.Pairwise fun x y => (x == y) = false) ∧
    s.metric "once_tokens" = (s.rules.filter fun r => r.once && hasFired as r).length ∧
    ((s.metric "asserted" : Int) - s.metric "retracted" ≤ s.metric "facts" ∧
      (s.metric "facts" : Int) ≤
        s.metric "asserted" + s.metric "upserted" - s.metric "retracted") ∧
    s.metric "asserted" + s.metric "retracted" + s.metric "upserted" + s.metric "fired" ≤
      s.metric "agenda_builds" ∧
    ∀ name ∈ counterNames, s.metric name ≤ t.metric name := by
  have hrec := h.recorded hnew
  obtain ⟨⟨-, -, -, -, -, hleast, hgreatest⟩, hfired, hbuilds⟩ := h.accounts
  obtain ⟨hlater, hlaterFired, -⟩ := k.accounts
  obtain ⟨hview, -⟩ := hnew.eq_initial
  have hzero : s₀.counters = .zero := by rw [hview]; rfl
  have hempty : s₀.memory.size = 0 := by rw [hview]; rfl
  simp only [hzero, hempty, Counters.zero, Counters.changes] at *
  have htokens : s.tokens.length = as.length := by rw [hrec.tokens, List.length_map]
  refine ⟨⟨?_, ?_, ?_⟩, ?_, ⟨?_, ?_⟩, ?_, ?_⟩
  · change s.counters.fired = s.tokens.length; omega
  · change s.counters.fired = as.length; omega
  · rw [hrec.tokens]; exact List.pairwise_map.mpr hrec.distinct
  · exact hrec.onceTokens_length
  · change (s.counters.asserted : Int) - s.counters.retracted ≤ s.memory.size; omega
  · change (s.memory.size : Int) ≤ s.counters.asserted + s.counters.upserted - s.counters.retracted
    omega
  · change s.counters.asserted + s.counters.retracted + s.counters.upserted + s.counters.fired ≤
      s.counters.agendaBuilds
    omega
  · simp only [counterNames, List.forall_mem_cons]
    refine ⟨hlater.asserted, hlater.retracted, hlater.upserted, hlater.agendaBuilds, ?_,
      hlater.effects, List.forall_mem_nil _⟩
    change s.counters.fired ≤ t.counters.fired; omega

/-- A guest comes, is greeted and leaves, another is brought in by an upsert and welcomed, and the
first one returns: three facts of the four that came are left when two activations have fired. -/
theorem metrics_account_guests : ∃ (s t : Session) (as bs : List Activation),
    History Sample.lobby as s ∧ History s bs t ∧ as.length = 2 ∧
    (s.metric "asserted", s.metric "retracted", s.metric "upserted", s.metric "facts") =
      (3, 1, 1, 3) ∧
    s.metric "fired" = 2 ∧ s.metric "tokens" = 2 ∧
    s.metric "once_tokens" = 1 ∧ (s.rules.filter fun r => r.once && hasFired as r).length = 1 ∧
    7 ≤ s.metric "agenda_builds" ∧ s.metric "asserted" < t.metric "asserted" ∧
    ∀ name ∈ counterNames, s.metric name ≤ t.metric name := by
  let os : List Operation :=
    [.assertFact (Sample.fact "guest" (.int 1)), .step, .retract (Sample.fact "guest" (.int 1)),
      .upsert (Sample.fact "guest" (.int 2)), .run 9 .none]
  let ps : List Operation := [.assertFact (Sample.fact "guest" (.int 1)), .run 9 .none]
  have hd : (Sample.lobby.replay os >>= fun r => r.1.replay ps >>= fun q =>
      pure (r.1.metrics, r.2.length, q.1.metric "asserted")).toOption =
        some ([("asserted", 3), ("retracted", 1), ("upserted", 1), ("agenda_builds", 7),
          ("fired", 2), ("effects", 2), ("facts", 3), ("agenda", 0), ("tokens", 2),
          ("once_tokens", 1)], 2, 4) := by
    decide +kernel
  simp only [toOption_eq_some, bind_eq_ok, pure, Except.pure, Except.ok.injEq, Prod.mk.injEq] at hd
  obtain ⟨r, hr, q, hq, hmetrics, hlength, hlater⟩ := hd
  have hs := replay_history hr
  have ht := replay_history hq
  obtain ⟨⟨htokens, hfired, -⟩, honce, -, hbuilds, hmono⟩ :=
    metrics_account Sample.lobby_isNew hs ht
  have hmetric (name : String) : r.1.metric name = (r.1.metrics.lookup name).getD 0 := rfl
  refine ⟨r.1, q.1, r.2, q.2, hs, ht, hlength, ?_, ?_, ?_, ?_, ?_, ?_, ?_, hmono⟩
  · simp only [hmetric, hmetrics]; rfl
  · rw [hfired, hlength]
  · rw [← htokens, hfired, hlength]
  · rw [hmetric, hmetrics]; rfl
  · rw [← honce, hmetric, hmetrics]; rfl
  · simp only [hmetric, hmetrics] at hbuilds ⊢; exact hbuilds
  · rw [hlater, hmetric, hmetrics]; decide

end Session

end RuleEngine
