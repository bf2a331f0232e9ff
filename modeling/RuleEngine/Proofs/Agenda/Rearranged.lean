import RuleEngine.Proofs.Agenda.Order
import RuleEngine.Proofs.Pattern.Reordered
import RuleEngine.Proofs.Session.Operation

/-!
# Agendas over rearranged facts

With the facts in another order a join makes the same attempts and finds the same bindings, equally
often, in another order (`joinAttempts_perm`, `joinFrom_perm`). So whether a rule can be matched
does not depend on the order. The agendas are then permutations of each other
(`Agenda.build_perm_of_facts`). They are sorted by salience and rule name, so the rules come in the
same order in both: only activations of one rule can change places (`Agenda.build_rules`).
-/

namespace RuleEngine

/-! ## Rules -/

namespace Rule

variable {r : Rule} {fs gs : List Value}

theorem bindings_perm (r : Rule) (h : fs.Perm gs) : (r.bindings fs).Perm (r.bindings gs) :=
  Pattern.joinFrom_perm h (.refl _)

theorem activations_perm (r : Rule) (h : fs.Perm gs) : (r.activations fs).Perm (r.activations gs) :=
  (r.bindings_perm h).map _

theorem IsMatchable.of_perm (hm : r.IsMatchable fs) (h : fs.Perm gs) : r.IsMatchable gs := by
  obtain ⟨hwritten, hshort⟩ := hm
  refine ⟨?_, ?_⟩
  · intro a ha
    exact hwritten a ((Pattern.joinAttempts_perm h (.refl _)).mem_iff.mpr ha)
  · intro b hb
    exact hshort b ((r.bindings_perm h).mem_iff.mpr hb)

end Rule

/-! ## Agendas -/

namespace Agenda

variable {rules : List Rule} {m n : Memory} {ts os : List Token} {c : Recency}

/-- Over the same facts in another order an agenda holds the same activations equally often. -/
theorem build_perm_of_facts (h : m.facts.Perm n.facts) :
    (build rules m ts os c).Perm (build rules n ts os c) := by
  rw [build_eq_sort, build_eq_sort]
  have hfound : (rules.flatMap fun r => filterFired ts os (r.activations m.facts)).Perm
      (rules.flatMap fun r => filterFired ts os (r.activations n.facts)) :=
    .flatMap_left rules fun r _ => (r.activations_perm h).filter _
  exact (StableSort.sort_perm _ _).trans (hfound.trans (StableSort.sort_perm _ _).symm)

/-- What the place of an activation on an agenda depends on. -/
def rank (a : Activation) : Int × Name := (a.salience.amount, a.rule)

/-- The order of firing, as an order of ranks. -/
def RankLE (p q : Int × Name) : Prop := q.1 < p.1 ∨ (p.1 = q.1 ∧ p.2.text ≤ q.2.text)

/-- On agendas of rules with different names, ranks of which each may stand before the other are
equal. -/
theorem rank_antisymm (hn : rules.Pairwise fun r r' => r.name.text ≠ r'.name.text)
    {p q : Int × Name} (hp : p ∈ (build rules m ts os c).map rank)
    (hq : q ∈ (build rules n ts os c).map rank) (hpq : RankLE p q) (hqp : RankLE q p) : p = q := by
  obtain ⟨a, ha, rfl⟩ := List.mem_map.mp hp
  obtain ⟨b, hb, rfl⟩ := List.mem_map.mp hq
  obtain ⟨⟨r, hr, hra⟩, -⟩ := mem_build.mp ha
  obtain ⟨⟨r', hr', hrb⟩, -⟩ := mem_build.mp hb
  have htext : a.rule.text = b.rule.text :=
    Activation.notAfter_antisymm (Activation.notAfter_iff.mpr hpq) (Activation.notAfter_iff.mpr hqp)
  rw [Rule.rule_of_mem_activations hra, Rule.rule_of_mem_activations hrb] at htext
  have hnames : (rules.map fun r => r.name.text).Nodup := List.pairwise_map.mpr hn
  obtain rfl : r = r' := List.inj_on_of_nodup_map hnames hr hr' htext
  obtain ⟨_, -, rfl⟩ := Rule.mem_activations.mp hra
  obtain ⟨_, -, rfl⟩ := Rule.mem_activations.mp hrb
  rfl

/-- Over the same facts in another order the rules come in the same order. -/
theorem build_rules (hn : rules.Pairwise fun r r' => r.name.text ≠ r'.name.text)
    (h : m.facts.Perm n.facts) :
    (build rules m ts os c).map (·.rule) = (build rules n ts os c).map (·.rule) := by
  have hsorted (m : Memory) : ((build rules m ts os c).map rank).Pairwise RankLE := by
    rw [List.pairwise_map, build_eq_sort]
    refine (StableSort.sort_pairwise Activation.notAfter_trans Activation.notAfter_total _).imp ?_
    intro a b hab
    exact Activation.notAfter_iff.mp hab
  have hranks : (build rules m ts os c).map rank = (build rules n ts os c).map rank := by
    apply List.Perm.eq_of_pairwise ?_ (hsorted m) (hsorted n) ((build_perm_of_facts h).map rank)
    intro p q hp hq hpq hqp
    exact rank_antisymm hn hp hq hpq hqp
  have hrule (as : List Activation) : as.map (·.rule) = (as.map rank).map Prod.snd := by
    rw [List.map_map]
    rfl
  rw [hrule, hrule, hranks]

end Agenda

end RuleEngine
