import RuleEngine.Proofs.Agenda.Order
import RuleEngine.Proofs.Session.Failure
import RuleEngine.Proofs.Session.History

/-!
# The canonical form of an agenda

An agenda is found by collecting the activations of all rules, leaving out the spent ones and
sorting the rest. What comes out needs no sorting to describe: put the rules in firing order, by
falling salience and then by name, and write down for each rule in turn what is left of its matches.
Rules with different names have exactly one firing order (`exists_firingOrder`,
`firingOrder_unique`). Activations of two rules never tie, so the sort moves whole rules, and those
of one rule always do, so it leaves each rule's own matches alone.

* `build_eq_flatMap`: the agenda, rule by rule.
* `rebuild_canonical`: what building the agenda of a session returns, and when it fails.
-/

namespace RuleEngine

open Pattern (matchAll)

namespace Rule

variable {r r' : Rule} {bs : List Binding} {ts os : List Token} {a b : Activation}

/-- The first rule fires before the second: it has the higher salience, or the same salience and the
smaller name. -/
def Precedes (r r' : Rule) : Prop :=
  r'.salience.amount < r.salience.amount ∨
    (r.salience.amount = r'.salience.amount ∧ r.name.text < r'.name.text)

/-- What is left to fire of a rule that matches under these bindings, in their order: nothing if the
rule is a `once` rule of which something has fired, else what has no fired token. -/
def waiting (r : Rule) (bs : List Binding) (ts os : List Token) : List Activation :=
  if r.once && os.any (fun t => t.rule.text == r.name.text) then []
  else (r.activationsUnder bs).filter fun a => !ts.any (· == a.token)

theorem Precedes.asymm (h : r.Precedes r') : ¬ r'.Precedes r := by
  rintro (hs' | ⟨hs', hn'⟩) <;> rcases h with hs | ⟨hs, hn⟩
  · omega
  · omega
  · omega
  · exact String.lt_asymm hn hn'

theorem mem_activationsUnder (h : a ∈ r.activationsUnder bs) :
    a.rule = r.name ∧ a.salience = r.salience ∧ a.once = r.once := by
  obtain ⟨b, -, rfl⟩ := List.mem_map.mp h
  exact ⟨rfl, rfl, rfl⟩

theorem filterFired_eq_waiting :
    Agenda.filterFired ts os (r.activationsUnder bs) = r.waiting bs ts os := by
  unfold Agenda.filterFired waiting
  split
  · rename_i hspent
    refine List.filter_eq_nil_iff.mpr fun a ha => ?_
    obtain ⟨hname, -, honce⟩ := mem_activationsUnder ha
    simp [Agenda.isOpen, hname, honce, hspent]
  · rename_i hfresh
    refine List.filter_congr fun a ha => ?_
    obtain ⟨hname, -, honce⟩ := mem_activationsUnder ha
    simp [Agenda.isOpen, hname, honce, hfresh]

theorem mem_waiting (h : a ∈ r.waiting bs ts os) :
    a.rule = r.name ∧ a.salience = r.salience := by
  rw [← filterFired_eq_waiting] at h
  obtain ⟨hname, hsalience, -⟩ := mem_activationsUnder (List.mem_filter.mp h).1
  exact ⟨hname, hsalience⟩

/-- Activations of one rule may stand in either order. -/
theorem waiting_notAfter (ha : a ∈ r.waiting bs ts os) (hb : b ∈ r.waiting bs ts os) :
    Activation.notAfter a b = true := by
  obtain ⟨hname, hsalience⟩ := mem_waiting ha
  obtain ⟨hname', hsalience'⟩ := mem_waiting hb
  rw [Activation.notAfter_iff, hname, hname', hsalience, hsalience']
  exact .inr ⟨rfl, String.le_refl _⟩

/-- Activations of a rule stand before those of a rule that fires later, and not behind them. -/
theorem Precedes.notAfter {cs : List Binding} (h : r.Precedes r') (ha : a ∈ r.waiting bs ts os)
    (hb : b ∈ r'.waiting cs ts os) :
    Activation.notAfter a b = true ∧ Activation.notAfter b a = false := by
  obtain ⟨hname, hsalience⟩ := mem_waiting ha
  obtain ⟨hname', hsalience'⟩ := mem_waiting hb
  rw [Bool.eq_false_iff, Ne, Activation.notAfter_iff, Activation.notAfter_iff, hname, hname',
    hsalience, hsalience']
  rcases h with hs | ⟨hs, hn⟩
  · exact ⟨.inl hs, by omega⟩
  · refine ⟨.inr ⟨hs, String.not_lt.mp (String.lt_asymm hn)⟩, ?_⟩
    rintro (hs' | ⟨-, hn'⟩)
    · omega
    · exact String.not_le.mpr hn hn'

theorem exists_firingOrder {rules : List Rule}
    (hn : rules.Pairwise fun r r' => r.name.text ≠ r'.name.text) :
    ∃ rs : List Rule, rs.Perm rules ∧ rs.Pairwise Precedes := by
  -- rules are compared as activations of theirs are, whatever these bind
  let sample (r : Rule) : Activation := .make r.name [] r.salience r.once
  let before (r r' : Rule) : Bool := Activation.notAfter (sample r) (sample r')
  have hperm := StableSort.sort_perm before rules
  have hsorted : (StableSort.sort before rules).Pairwise fun r r' => before r r' = true :=
    StableSort.sort_pairwise
      (fun a b c => Activation.notAfter_trans (sample a) (sample b) (sample c))
      (fun a b => Activation.notAfter_total (sample a) (sample b)) rules
  have hnames := (hperm.pairwise_iff Ne.symm).mpr hn
  refine ⟨StableSort.sort before rules, hperm, (hsorted.and hnames).imp ?_⟩
  rintro r r' ⟨hbefore, hne⟩
  refine (Activation.notAfter_iff.mp hbefore).imp_right fun ⟨hs, hle⟩ => ⟨hs, ?_⟩
  exact String.not_le.mp fun hge => hne (String.le_antisymm hle hge)

theorem firingOrder_unique {rs rs' : List Rule} (hp : rs.Perm rs') (h : rs.Pairwise Precedes)
    (h' : rs'.Pairwise Precedes) : rs = rs' :=
  List.Perm.eq_of_pairwise (fun _ _ _ _ hr hr' => absurd hr' hr.asymm) h h' hp

end Rule

namespace Agenda

variable {rules rs : List Rule} {m : Memory} {ts os : List Token} {c : Recency}

/-- The agenda is what is left of the matches of each rule, with the rules in firing order. -/
theorem build_eq_flatMap (hp : rs.Perm rules) (hs : rs.Pairwise Rule.Precedes) :
    build rules m ts os c = rs.flatMap fun r => r.waiting (r.bindings m.facts) ts os := by
  have hwaiting (r : Rule) :
      filterFired ts os (r.activations m.facts) = r.waiting (r.bindings m.facts) ts os :=
    Rule.filterFired_eq_waiting
  simp only [build_eq_sort, hwaiting]
  rw [← StableSort.sort_flatMap_perm Activation.notAfter_trans hp
    (hs.imp fun h a ha b hb => by simp [h.notAfter ha hb])]
  refine StableSort.sort_eq_self (List.pairwise_flatMap.mpr ⟨fun r _ => ?_, ?_⟩)
  · exact List.pairwise_of_forall_mem_list fun a ha b hb => Rule.waiting_notAfter ha hb
  · exact hs.imp fun h a ha b hb => (h.notAfter ha hb).1

end Agenda

namespace Session

variable {s : Session}

def withRecency (s : Session) (c : Recency) : Session :=
  { s with options := { s.options with recency := c } }

theorem isMatchable_iff : s.IsMatchable ↔
    ∀ r ∈ s.rules, (matchAll r.patterns s.facts).value = .ok (r.bindings s.facts) ∧
      ∀ b ∈ r.bindings s.facts, (Value.map b).isOverlong = false := by
  refine forall₂_congr fun r _ => ?_
  rw [Rule.IsMatchable, Pattern.matchAll_eq_ok]
  simp only [Rule.bindings, and_true]
  rfl

/-- What is left of the matches of the rules over the session's facts, rule by rule. -/
def waiting (s : Session) (rs : List Rule) : List Activation :=
  rs.flatMap fun r => r.waiting (r.bindings s.facts) s.tokens s.onceTokens

/-- Building the agenda of a session gives, with the rules in firing order, the matches of each rule
in their order, less those whose token has fired, and less all those of a `once` rule of which
something has fired. It fails where the matching of a rule fails, where a match can have no token,
or where the observer cannot be told of the agenda. The recency has no part in it. -/
theorem rebuild_canonical (hn : s.rules.Pairwise fun r r' => r.name.text ≠ r'.name.text) :
    ∃ rs : List Rule, rs.Perm s.rules ∧ rs.Pairwise Rule.Precedes ∧
      (∀ rs' : List Rule, rs'.Perm s.rules → rs'.Pairwise Rule.Precedes → rs' = rs) ∧
      (s.IsBuildable ↔
        (∀ r ∈ s.rules, (matchAll r.patterns s.facts).value = .ok (r.bindings s.facts) ∧
          ∀ b ∈ r.bindings s.facts, (Value.map b).isOverlong = false) ∧
        Observer.CanTell s.options.observer
          (Agenda.builtEvent s.facts (s.waiting rs).length)) ∧
      (s.IsBuildable → s.rebuild.value = .ok { s with
        pending := s.waiting rs
        counters := { s.counters with agendaBuilds := s.counters.agendaBuilds + 1 } }) ∧
      (¬ s.IsBuildable → s.rebuild.value = .error (.fault .unwritableInteger)) ∧
      ∀ c, (s.withRecency c).rebuild.value = s.rebuild.value.map (·.withRecency c) := by
  obtain ⟨rs, hperm, hsorted⟩ := Rule.exists_firingOrder hn
  have hagenda : s.freshAgenda = s.waiting rs := Agenda.build_eq_flatMap hperm hsorted
  have hevent : s.rebuilt.builtEvent = Agenda.builtEvent s.facts (s.waiting rs).length := by
    rw [← hagenda]
    rfl
  refine ⟨rs, hperm, hsorted, fun rs' hperm' hsorted' => ?_, ?_, fun hb => ?_, rebuild_fails,
    fun c => ?_⟩
  · exact Rule.firingOrder_unique (hperm'.trans hperm.symm) hsorted' hsorted
  · rw [← isMatchable_iff, ← hevent]
    exact ⟨fun hb => ⟨hb.matchable, hb.told⟩, fun ⟨hm, htold⟩ => ⟨hm, htold⟩⟩
  · rw [← hagenda]
    exact rebuild_eq_ok.mpr ⟨hb, rfl⟩
  · have hsame : (s.withRecency c).IsBuildable ↔ s.IsBuildable :=
      ⟨fun hb => ⟨hb.matchable, hb.told⟩, fun hb => ⟨hb.matchable, hb.told⟩⟩
    by_cases hb : s.IsBuildable
    · rw [rebuild_eq_ok.mpr ⟨hb, rfl⟩]
      exact rebuild_eq_ok.mpr ⟨hsame.mpr hb, rfl⟩
    · rw [rebuild_fails hb]
      exact rebuild_fails (mt hsame.mp hb)

namespace Sample

def attend (name : String) (hn : name ≠ "") (salience : Int) (once : Bool) : Rule where
  name := .ofText name
  patterns := [idOf "guest" "who"]
  action _ := .ok (.effects [])
  salience := .ofInt salience
  once := once
  mode := if once then .once else .perFact
  throttle := .none
  name_ne_empty := hn
  patterns_ne_nil := welcome.patterns_ne_nil
  once_eq := by cases once <;> rfl

/-- Four rules and two guests. The `once` rule is spent, and `bow` has fired for the first guest. -/
def party : Session where
  options := .default
  memory := ⟨[(⟨.text "guest", .int 1, .bool false⟩, fact "guest" (.int 1)),
    (⟨.text "guest", .int 2, .bool false⟩, fact "guest" (.int 2))]⟩
  pending := []
  tokens := [Token.frozen (.ofText "bow") [(.text "who", .int 1)],
    Token.frozen (.ofText "open") [(.text "who", .int 2)]]
  onceTokens := [Token.frozen (.ofText "open") [(.text "who", .int 2)]]
  counters := .zero
  lastEffects := []
  rules := [attend "wave" (by decide) (-1) false, attend "nod" (by decide) 0 false,
    attend "open" (by decide) 7 true, attend "bow" (by decide) 0 false]

def weigh : Rule where
  name := .ofText "weigh"
  patterns := [⟨fun f => .ok ((f.entry? "n").elim .none fun v => .map [(.text "n", v)]), none⟩]
  action _ := .ok (.effects [])
  salience := .ofInt 0
  once := false
  mode := .perFact
  throttle := .none
  name_ne_empty := by decide
  patterns_ne_nil := List.cons_ne_nil _ _
  once_eq := rfl

def scale : Session where
  options := .default
  memory := ⟨[(⟨.text "weight", .int 1, .bool false⟩,
    .map [(.text "kind", .text "weight"), (.text "id", .int 1),
      (.text "n", .int Value.writtenBound)])]⟩
  pending := []
  tokens := []
  onceTokens := []
  counters := .zero
  lastEffects := []
  rules := [weigh]

end Sample

/-- By salience `open` comes first and `wave` last, between them `bow` and `nod` by name. Nothing is
left of `open`, and of `bow` only the second guest. -/
theorem rebuild_canonical_party :
    (Sample.party.rules.Pairwise fun r r' => r.name.text ≠ r'.name.text) ∧
    ∃ (rs : List Rule) (t : Session), rs.Perm Sample.party.rules ∧ rs.Pairwise Rule.Precedes ∧
      Sample.party.rebuild.value = .ok t ∧
      t.pending = Sample.party.waiting rs ∧
      (t.pending.map fun a => (a.rule.text, a.binding.map fun e => e.2.integer?)) =
        [("bow", [some 2]), ("nod", [some 1]), ("nod", [some 2]), ("wave", [some 1]),
          ("wave", [some 2])] := by
  have hn : Sample.party.rules.Pairwise fun r r' => r.name.text ≠ r'.name.text := by decide
  obtain ⟨rs, hperm, hsorted, -, -, hreturns, -, -⟩ := rebuild_canonical hn
  have hd : (Sample.party.rebuild.value.map fun t =>
      t.pending.map fun a => (a.rule.text, a.binding.map fun e => e.2.integer?)).toOption =
        some [("bow", [some 2]), ("nod", [some 1]), ("nod", [some 2]), ("wave", [some 1]),
          ("wave", [some 2])] := by
    decide +kernel
  obtain ⟨t, ht, hpending⟩ := map_eq_ok.mp (toOption_eq_some.mp hd)
  have hcanonical := hreturns (rebuild_eq_ok.mp ht).1
  obtain rfl := Except.ok.inj (ht.symm.trans hcanonical)
  exact ⟨hn, rs, _, hperm, hsorted, hcanonical, rfl, hpending⟩

/-- Nothing has fired and the one rule matches once, but no agenda is built: the number it matches
with is too long to be written, so the match can have no token. -/
theorem rebuild_overlong :
    (matchAll Sample.weigh.patterns Sample.scale.facts).value =
      .ok [[(.text "n", .int Value.writtenBound)]] ∧
    Sample.scale.tokens = [] ∧ Sample.scale.onceTokens = [] ∧
    Sample.scale.rebuild.value = .error (.fault .unwritableInteger) := by
  have hmatches : (matchAll Sample.weigh.patterns Sample.scale.facts).value =
      .ok [[(.text "n", .int Value.writtenBound)]] := rfl
  refine ⟨hmatches, rfl, rfl, rebuild_fails fun hb => ?_⟩
  obtain ⟨hmatch, hshort⟩ := isMatchable_iff.mp hb.matchable Sample.weigh List.mem_cons_self
  have hbindings := Except.ok.inj (hmatch.symm.trans hmatches)
  have hwritable := hshort [(.text "n", .int Value.writtenBound)] (by
    rw [hbindings]
    exact List.mem_cons_self)
  have hlong : (Value.map [(.text "n", .int Value.writtenBound)]).isOverlong = true :=
    Value.isOverlongEntry_iff.mpr
      ⟨_, List.mem_singleton_self _, .inr Value.isOverlongInteger_writtenBound⟩
  rw [hlong] at hwritable
  cases hwritable

end Session

end RuleEngine
