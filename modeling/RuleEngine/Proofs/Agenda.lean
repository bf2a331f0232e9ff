import RuleEngine.Agenda
import RuleEngine.Proofs.StableSort
import RuleEngine.Proofs.Traced
import RuleEngine.Proofs.Value.Overlong

/-!
# What is on an agenda

A binding has a token, and can be activated, exactly if it can be shown (`Token.of_eq_ok`,
`Activation.of_eq_ok`).

`mem_build`: an activation is on the agenda exactly if some rule supports it over the facts and it
is not spent. Over no facts every agenda is empty (`build_empty`), because a rule has at least one
pattern.
-/

namespace RuleEngine

/-! ## Tokens and activations -/

section

variable {rule : Name} {b : Binding} {salience : Salience} {once : Bool} {f : Fault}

theorem checkFreezable_binding (b : Binding) :
    (Value.map b).checkFreezable = checkLength (Value.map b).isOverlong := rfl

theorem Token.of_eq_ok {t : Token} :
    Token.of rule b = .ok t ↔ (Value.map b).isOverlong = false ∧ t = .frozen rule b := by
  rw [Token.of, checkFreezable_binding, bind_eq_ok, eq_comm (a := t)]
  simp only [checkLength_eq_ok, exists_const, pure_eq_ok]

theorem Token.of_eq_error :
    Token.of rule b = .error f ↔ (Value.map b).isOverlong = true ∧ f = .unwritableInteger := by
  rw [Token.of, checkFreezable_binding, bind_eq_error, checkLength_eq_error]
  exact or_iff_left fun ⟨_, _, h⟩ => nomatch h

theorem Activation.of_eq_ok {a : Activation} : Activation.of rule b salience once = .ok a ↔
    (Value.map b).isOverlong = false ∧ a = .make rule b salience once := by
  rw [Activation.of, bind_eq_ok]
  constructor
  · rintro ⟨t, ht, ⟨⟩⟩
    obtain ⟨hshown, rfl⟩ := Token.of_eq_ok.mp ht
    exact ⟨hshown, rfl⟩
  · rintro ⟨hshown, rfl⟩
    exact ⟨_, Token.of_eq_ok.mpr ⟨hshown, rfl⟩, rfl⟩

theorem Activation.of_eq_error : Activation.of rule b salience once = .error f ↔
    (Value.map b).isOverlong = true ∧ f = .unwritableInteger := by
  rw [Activation.of, bind_eq_error, Token.of_eq_error]
  exact or_iff_left fun ⟨_, _, h⟩ => nomatch h

end

/-! ## The agenda -/

theorem Rule.mem_activations {r : Rule} {facts : List Value} {a : Activation} :
    a ∈ r.activations facts ↔
      ∃ b ∈ r.bindings facts, a = Activation.make r.name b r.salience r.once := by
  simp only [activations, activationsUnder, List.mem_map, eq_comm]

theorem Rule.bindings_nil (r : Rule) : r.bindings [] = [] := by
  have hj : ∀ ps : List Pattern, Pattern.joinFrom [] [] ps = [] := by
    intro ps
    induction ps with
    | nil => rfl
    | cons p ps ih => exact ih
  unfold bindings
  cases hp : r.patterns with
  | nil => exact absurd hp r.patterns_ne_nil
  | cons p ps => exact hj ps

theorem Rule.activations_nil (r : Rule) : r.activations [] = [] := by
  rw [activations, r.bindings_nil]
  rfl

namespace Agenda

variable {rules : List Rule} {m : Memory} {ts os : List Token} {c : Recency} {a : Activation}

/-- Whether the activation has been spent: its token has been fired, or it belongs to a `once` rule
of which some activation has. -/
def IsSpent (ts os : List Token) (a : Activation) : Prop :=
  (∃ t ∈ ts, (t == a.token) = true) ∨ (a.once = true ∧ ∃ t ∈ os, t.rule.text = a.rule.text)

theorem isOpen_iff : isOpen ts os a = true ↔ ¬ IsSpent ts os a := by
  simp only [isOpen, IsSpent, Bool.and_eq_true, Bool.not_eq_true', List.any_eq_false, not_or,
    not_exists, not_and, Bool.and_eq_false_imp, beq_iff_eq]

/-- An activation is on the agenda exactly if a rule supports it and it is not spent. -/
theorem mem_build :
    a ∈ build rules m ts os c ↔ (∃ r ∈ rules, a ∈ r.activations m.facts) ∧ ¬ IsSpent ts os a := by
  unfold build choose order filterFired found
  rw [(StableSort.sort_perm _ _).mem_iff]
  simp only [List.mem_filter, List.mem_flatten, List.mem_map, isOpen_iff]
  constructor
  · rintro ⟨⟨_, ⟨r, hr, rfl⟩, ha⟩, ho⟩
    exact ⟨⟨r, hr, ha⟩, ho⟩
  · rintro ⟨⟨r, hr, ha⟩, ho⟩
    exact ⟨⟨_, ⟨r, hr, rfl⟩, ha⟩, ho⟩

theorem build_empty : build rules .empty ts os c = [] := by
  refine List.eq_nil_iff_forall_not_mem.mpr fun a ha => ?_
  obtain ⟨⟨r, -, hr⟩, -⟩ := mem_build.mp ha
  rw [show Memory.empty.facts = [] from rfl, r.activations_nil] at hr
  cases hr

end Agenda

end RuleEngine
