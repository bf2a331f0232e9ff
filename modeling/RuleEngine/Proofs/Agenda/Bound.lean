import Mathlib.Algebra.GroupWithZero.Nat
import Mathlib.Algebra.Order.BigOperators.Group.List
import Mathlib.Algebra.Order.Group.Nat
import Mathlib.Data.List.Perm.Subperm
import RuleEngine.Proofs.Agenda.Order
import RuleEngine.Proofs.Fact.Frozen
import RuleEngine.Proofs.Pattern.Join

/-!
# How many activations there can be

Every activation of a rule comes from a tuple of facts, one for each of its patterns. So over a list
of facts a rule with `n` patterns has at most as many activations as there are such tuples
(`Rule.activations_length_le`), and more facts only give more of them (`Rule.activations_subset`).
Activations whose tokens differ are different, provided that every token equals itself
(`Activation.length_le`). That takes bindings without numbers that are not a number, which is what
`Pattern.BindsWell` asks of the matchers.
-/

namespace RuleEngine

/-! ## Joins over more facts -/

namespace Pattern

variable {p : Pattern} {ps : List Pattern} {fs gs facts : List Value} {bs cs : List Binding}

theorem mem_extend {d : Binding} : d ∈ p.extend facts bs ↔
    ∃ b ∈ bs, ∃ f ∈ facts, (p.attempt f b).binding? = some d := by
  simp only [extend, attempts, List.mem_filterMap, List.mem_flatMap, List.mem_map]
  constructor
  · rintro ⟨_, ⟨b, hb, f, hf, rfl⟩, h⟩
    exact ⟨b, hb, f, hf, h⟩
  · rintro ⟨b, hb, f, hf, h⟩
    exact ⟨_, ⟨b, hb, f, hf, rfl⟩, h⟩

theorem extend_subset (hf : fs ⊆ gs) (hb : bs ⊆ cs) : p.extend fs bs ⊆ p.extend gs cs := by
  intro d hd
  obtain ⟨b, hbs, f, hfs, h⟩ := mem_extend.mp hd
  exact mem_extend.mpr ⟨b, hb hbs, f, hf hfs, h⟩

theorem joinFrom_subset (hf : fs ⊆ gs) (hb : bs ⊆ cs) :
    joinFrom fs bs ps ⊆ joinFrom gs cs ps := by
  induction ps generalizing bs cs with
  | nil => exact hb
  | cons p ps ih => exact ih (extend_subset hf hb)

theorem extend_length_le : (p.extend facts bs).length ≤ bs.length * facts.length := by
  refine (List.length_filterMap_le _ _).trans (Nat.le_of_eq ?_)
  simp [attempts]

theorem joinFrom_length_le :
    (joinFrom facts bs ps).length ≤ bs.length * facts.length ^ ps.length := by
  induction ps generalizing bs with
  | nil => simp [joinFrom]
  | cons p ps ih =>
    calc (joinFrom facts (p.extend facts bs) ps).length
      _ ≤ (p.extend facts bs).length * facts.length ^ ps.length := ih
      _ ≤ bs.length * facts.length * facts.length ^ ps.length :=
        Nat.mul_le_mul_right _ extend_length_le
      _ = bs.length * facts.length ^ (ps.length + 1) := by
        rw [Nat.mul_assoc, Nat.pow_succ']

/-- A join gives at most as many bindings as there are tuples of facts, one for each pattern. -/
theorem join_length_le : (join ps facts).length ≤ facts.length ^ ps.length := by
  have h : (joinFrom facts [[]] ps).length ≤ 1 * facts.length ^ ps.length := joinFrom_length_le
  rwa [Nat.one_mul] at h

/-! ## Bindings whose tokens equal themselves -/

/-- Everything the patterns bind on the facts is a proper map, as it can be built. -/
def BindsWell (ps : List Pattern) (facts : List Value) : Prop :=
  ∀ p ∈ ps, ∀ f ∈ facts, ∀ b, p.found? f = some b → b.Proper ∧ (Value.map b).WellFormed

theorem merge_wellFormed {b c : Binding} (hb : (Value.map b).WellFormed)
    (hc : (Value.map c).WellFormed) (h : (b.merge c).Proper) :
    (Value.map (b.merge c)).WellFormed := by
  obtain ⟨hbk, hbv, hbh, -⟩ := hb.of_map
  obtain ⟨hck, hcv, hch, -⟩ := hc.of_map
  have hpart : ∀ e ∈ b.merge c, e ∈ b ∨ e ∈ c := by
    intro e he
    exact (List.mem_append.mp he).imp_right fun h => (List.mem_filter.mp h).1
  refine .map (fun e he => ?_) (fun e he => ?_) (fun e he => ?_) (Binding.proper_iff.mp h).2.2
  · exact (hpart e he).elim (hbk e) (hck e)
  · exact (hpart e he).elim (hbv e) (hcv e)
  · exact (hpart e he).elim (hbh e) (hch e)

theorem BindsWell.joinFrom (h : BindsWell ps facts)
    (hb : ∀ b ∈ bs, b.Proper ∧ (Value.map b).WellFormed) :
    ∀ b ∈ joinFrom facts bs ps, b.Proper ∧ (Value.map b).WellFormed := by
  induction ps generalizing bs with
  | nil => exact hb
  | cons p ps ih =>
    obtain ⟨hp, hps⟩ := List.forall_mem_cons.mp h
    refine ih hps fun d hd => ?_
    obtain ⟨b, hbs, f, hf, hd⟩ := mem_extend.mp hd
    obtain ⟨c, hc, hunify, -⟩ := attempt_binding.mp hd
    obtain ⟨hbp, hbw⟩ := hb b hbs
    obtain ⟨hcp, hcw⟩ := hp f hf c hc
    obtain ⟨-, rfl⟩ := (Binding.unify_eq_some hbp hcp).mp hunify
    exact ⟨hbp.merge hcp, merge_wellFormed hbw hcw (hbp.merge hcp)⟩

end Pattern

theorem Token.frozen_refl {b : Binding} (hb : b.Proper) (hw : (Value.map b).WellFormed)
    (rule : Name) : (Token.frozen rule b == Token.frozen rule b) = true :=
  Bool.and_eq_true_iff.mpr ⟨beq_self_eq_true _, (Value.Proper.freeze hb hw).refl⟩

namespace Rule

variable {r : Rule} {fs gs facts : List Value} {a : Activation}

theorem activations_subset (h : fs ⊆ gs) : r.activations fs ⊆ r.activations gs :=
  List.map_subset _ (Pattern.joinFrom_subset h (List.Subset.refl _))

/-- A rule has at most as many activations as there are tuples of facts, one for each pattern. -/
theorem activations_length_le :
    (r.activations facts).length ≤ facts.length ^ r.patterns.length := by
  simpa [activations, activationsUnder, bindings] using Pattern.join_length_le

theorem token_refl (h : Pattern.BindsWell r.patterns facts) (ha : a ∈ r.activations facts) :
    (a.token == a.token) = true := by
  obtain ⟨b, hb, rfl⟩ := mem_activations.mp ha
  obtain ⟨hbp, hbw⟩ := h.joinFrom (List.forall_mem_singleton.mpr
    ⟨.nil, .map (by simp) (by simp) (by simp) .nil⟩) b hb
  exact Token.frozen_refl hbp hbw r.name

end Rule

/-- Of activations of some rules over some facts, no more have different tokens than there are
tuples of facts for their patterns. -/
theorem Activation.length_le {rules : List Rule} {facts : List Value} {as : List Activation}
    (hwell : ∀ r ∈ rules, Pattern.BindsWell r.patterns facts)
    (hmem : ∀ a ∈ as, ∃ r ∈ rules, a ∈ r.activations facts)
    (hdiffer : as.Pairwise fun a b => (a.token == b.token) = false) :
    as.length ≤ (rules.map fun r => facts.length ^ r.patterns.length).sum := by
  have hnodup : as.Nodup := by
    refine hdiffer.imp_of_mem fun {a b} ha _ hne heq => ?_
    obtain ⟨r, hr, har⟩ := hmem a ha
    rw [← heq, r.token_refl (hwell r hr) har] at hne
    cases hne
  have hsub : as ⊆ rules.flatMap fun r => r.activations facts := fun a ha =>
    List.mem_flatMap.mpr (hmem a ha)
  calc as.length
    _ ≤ (rules.flatMap fun r => r.activations facts).length :=
      (List.subperm_of_subset hnodup hsub).length_le
    _ = (rules.map fun r => (r.activations facts).length).sum := List.length_flatMap
    _ ≤ (rules.map fun r => facts.length ^ r.patterns.length).sum :=
      List.sum_le_sum fun r _ => r.activations_length_le

end RuleEngine
