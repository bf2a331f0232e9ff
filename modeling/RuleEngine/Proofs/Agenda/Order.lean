import Mathlib.Data.List.Flatten
import RuleEngine.Proofs.Agenda

/-!
# How an agenda depends on the rules and the facts

Activations fire by falling salience and then by the names of their rules. Two activations of rules
with different names never tie (`notAfter_ne`), so the sort separates the rules, and within one rule
it keeps the order of the matches.

* `build_perm`: rules with different names may be given in any order.
* `build_sublist`: over fewer facts an agenda holds fewer activations, in the same order. Each
  pattern of a join extends fewer bindings by fewer facts, so what is left of the matches keeps its
  order from pattern to pattern (`joinFrom_sublist`).
-/

namespace RuleEngine

namespace Activation

variable {a b c : Activation}

theorem notAfter_iff : notAfter a b = true ↔
    b.salience.amount < a.salience.amount ∨
      (a.salience.amount = b.salience.amount ∧ a.rule.text ≤ b.rule.text) := by
  simp only [notAfter, Bool.or_eq_true, Bool.and_eq_true, decide_eq_true_eq, beq_iff_eq,
    Bool.not_eq_true', decide_eq_false_iff_not, String.not_lt]

theorem notAfter_total (a b : Activation) : notAfter a b = true ∨ notAfter b a = true := by
  rw [notAfter_iff, notAfter_iff]
  rcases Int.lt_trichotomy a.salience.amount b.salience.amount with hs | hs | hs
  · exact .inr (.inl hs)
  · rcases String.le_total a.rule.text b.rule.text with h | h
    · exact .inl (.inr ⟨hs, h⟩)
    · exact .inr (.inr ⟨hs.symm, h⟩)
  · exact .inl (.inl hs)

theorem notAfter_trans (a b c : Activation) (hab : notAfter a b = true)
    (hbc : notAfter b c = true) : notAfter a c = true := by
  rw [notAfter_iff] at hab hbc ⊢
  rcases hab with hs | ⟨hs, hn⟩ <;> rcases hbc with hs' | ⟨hs', hn'⟩
  · left; omega
  · left; omega
  · left; omega
  · exact .inr ⟨hs.trans hs', String.le_trans hn hn'⟩

/-- Activations that may stand in either order belong to rules of one name. -/
theorem notAfter_antisymm (hab : notAfter a b = true) (hba : notAfter b a = true) :
    a.rule.text = b.rule.text := by
  rw [notAfter_iff] at hab hba
  rcases hab with hs | ⟨hs, hn⟩ <;> rcases hba with hs' | ⟨hs', hn'⟩
  · omega
  · omega
  · omega
  · exact String.le_antisymm hn hn'

theorem notAfter_ne (h : a.rule.text ≠ b.rule.text) : notAfter a b ≠ notAfter b a := by
  intro he
  rcases notAfter_total a b with hab | hba
  · exact h (notAfter_antisymm hab (he ▸ hab))
  · exact h (notAfter_antisymm (he ▸ hba) hba)

end Activation

theorem Rule.rule_of_mem_activations {r : Rule} {facts : List Value} {a : Activation}
    (h : a ∈ r.activations facts) : a.rule = r.name := by
  obtain ⟨b, -, rfl⟩ := mem_activations.mp h
  rfl

/-! ## Fewer facts -/

namespace Pattern

variable {p : Pattern} {ps : List Pattern} {fs gs : List Value} {bs cs : List Binding}

theorem attempts_sublist (hf : fs.Sublist gs) (hb : bs.Sublist cs) :
    (p.attempts fs bs).Sublist (p.attempts gs cs) :=
  (hb.flatMap _).trans (.flatMap_right cs fun _ _ => hf.map _)

theorem extend_sublist (hf : fs.Sublist gs) (hb : bs.Sublist cs) :
    (p.extend fs bs).Sublist (p.extend gs cs) :=
  (attempts_sublist hf hb).filterMap _

theorem joinFrom_sublist (hf : fs.Sublist gs) (hb : bs.Sublist cs) :
    (joinFrom fs bs ps).Sublist (joinFrom gs cs ps) := by
  induction ps generalizing bs cs with
  | nil => exact hb
  | cons p ps ih => exact ih (extend_sublist hf hb)

theorem joinAttempts_sublist (hf : fs.Sublist gs) (hb : bs.Sublist cs) :
    (joinAttempts fs bs ps).Sublist (joinAttempts gs cs ps) := by
  induction ps generalizing bs cs with
  | nil => exact .refl _
  | cons p ps ih => exact (attempts_sublist hf hb).append (ih (extend_sublist hf hb))

end Pattern

theorem Rule.bindings_sublist (r : Rule) {fs gs : List Value} (h : fs.Sublist gs) :
    (r.bindings fs).Sublist (r.bindings gs) :=
  Pattern.joinFrom_sublist h (.refl _)

theorem Rule.activations_sublist (r : Rule) {fs gs : List Value} (h : fs.Sublist gs) :
    (r.activations fs).Sublist (r.activations gs) :=
  (r.bindings_sublist h).map _

namespace Agenda

variable {rules rules' : List Rule} {m n : Memory} {ts os : List Token} {c : Recency}

/-- The agenda sorts the open activations of the rules, taken rule by rule. -/
theorem build_eq_sort : build rules m ts os c = StableSort.sort Activation.notAfter
    (rules.flatMap fun r => filterFired ts os (r.activations m.facts)) := by
  unfold build choose order found
  rw [← List.flatMap_def, filterFired, List.filter_flatMap]
  rfl

theorem build_perm (hp : rules.Perm rules')
    (hn : rules.Pairwise fun r r' => r.name.text ≠ r'.name.text) :
    build rules m ts os c = build rules' m ts os c := by
  rw [build_eq_sort, build_eq_sort]
  refine StableSort.sort_flatMap_perm Activation.notAfter_trans hp (hn.imp ?_)
  intro r r' hne a ha b hb
  have har := Rule.rule_of_mem_activations (List.mem_filter.mp ha).1
  have hbr := Rule.rule_of_mem_activations (List.mem_filter.mp hb).1
  exact Activation.notAfter_ne (by rwa [har, hbr])

/-- Over fewer facts an agenda holds fewer activations, in the same order. -/
theorem build_sublist (h : m.facts.Sublist n.facts) :
    (build rules m ts os c).Sublist (build rules n ts os c) := by
  rw [build_eq_sort, build_eq_sort]
  refine StableSort.sort_sublist Activation.notAfter_trans Activation.notAfter_total ?_
  exact .flatMap_right rules fun r _ => (r.activations_sublist h).filter _

end Agenda

end RuleEngine
