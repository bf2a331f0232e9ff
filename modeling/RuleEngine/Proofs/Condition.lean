import RuleEngine.Condition
import RuleEngine.Proofs.Binding.Variables
import RuleEngine.Proofs.Failure

/-!
# How conditions fail and when they hold

A guard that fails may fail because its values cannot be compared. The fault of a comparison names
classes and shows no value (`Fault.IsBare`), so it can always be written, and it is never that of a
missing key: only the look-up of a variable gives that one.

* `allHold_failsBare`: how guards fail whose variables are all bound.
* `allHold_eq_true`, `met_congr`: when a guard is true.
-/

namespace RuleEngine

variable {b : Binding}

namespace Value

theorem compareAtoms_failsBare (r : Relation) (v w : Value) : FailsBare (compareAtoms r v w) := by
  unfold compareAtoms
  split
  case h_5 => exact .error trivial
  all_goals exact .ok _

mutual

theorem compare_failsBare (r : Relation) (v w : Value) : FailsBare (compare r v w) := by
  cases v with
  | list xs =>
    cases w with
    | list ys => exact compareItems_failsBare r xs ys
    | _ => exact .error trivial
  | tuple xs =>
    cases w with
    | tuple ys => exact compareItems_failsBare r xs ys
    | _ => exact .error trivial
  | _ =>
    unfold compare
    exact compareAtoms_failsBare r _ w
termination_by structural v

theorem compareItems_failsBare (r : Relation) (xs ys : List Value) :
    FailsBare (compareItems r xs ys) := by
  cases xs with
  | nil => exact .ok _
  | cons x xs =>
    cases ys with
    | nil => exact .ok _
    | cons y ys =>
      rw [compareItems]
      split
      · exact compareItems_failsBare r xs ys
      · exact compare_failsBare r x y
termination_by structural xs

end

theorem octetsContain_failsBare (bs : List UInt8) (v : Value) : FailsBare (octetsContain bs v) := by
  unfold octetsContain
  split
  · split
    · exact .ok _
    · exact .error trivial
  · exact .ok _
  · exact .error trivial

/-- An answer that depends on a hash fails only where there is no hash. -/
theorem hashed_failsBare {α : Type} (v : Value) (a : α) :
    FailsBare (do v.checkHashable; return a) :=
  .bind (v.checkHashable_failsAs fun _ => trivial) fun _ _ => .ok a

theorem contains_failsBare (v w : Value) : FailsBare (v.contains w) := by
  unfold contains
  split
  · exact .ok _
  · exact .ok _
  · split
    · exact .ok _
    · exact hashed_failsBare w _
  · split
    · exact .ok _
    · exact hashed_failsBare w _
  · exact hashed_failsBare w _
  · exact octetsContain_failsBare _ w
  · exact octetsContain_failsBare _ w
  · split
    · unfold enumerationContains
      split
      · exact .ok _
      · exact .error trivial
    · exact .error trivial
  · split
    · exact .ok _
    · exact .error trivial
    · exact .error trivial

end Value

theorem Operator.holds_failsBare (op : Operator) (v w : Value) : FailsBare (op.holds v w) := by
  cases op with
  | eq | ne => exact .ok _
  | order r => exact Value.compare_failsBare r v w
  | within => exact Value.contains_failsBare w v
  | contains => exact Value.contains_failsBare v w
  | outside => exact .bind (Value.contains_failsBare w v) fun _ _ => .ok _

namespace Condition

variable {c : Condition} {cs : List Condition}

/-- A side of a condition has a value if the variable it refers to is bound. -/
theorem resolve_returns {side : Value} (h : ∀ x ∈ Reference.name? side, b.Binds x) :
    ∃ v, resolve b side = .ok v := by
  unfold resolve
  cases hn : Reference.name? side with
  | none => exact ⟨_, rfl⟩
  | some x => exact h x hn

theorem holds_of_binds (h : ∀ x ∈ c.variableNames, b.Binds x) :
    ∃ v w, c.holds b = c.operator.holds v w := by
  simp only [variableNames, List.mem_filterMap] at h
  have hside : ∀ side ∈ [c.left, c.right], ∃ v, resolve b side = .ok v := fun side hs =>
    resolve_returns fun x hx => h x ⟨side, hs, hx⟩
  obtain ⟨v, hv⟩ := hside c.left (by simp)
  obtain ⟨w, hw⟩ := hside c.right (by simp)
  refine ⟨v, w, ?_⟩
  rw [holds, hv, hw]
  rfl

/-- Conditions whose variables are bound fail only as their comparisons do. -/
theorem allHold_failsBare (h : ∀ c ∈ cs, ∀ x ∈ c.variableNames, b.Binds x) :
    FailsBare (allHold cs b) := by
  induction cs with
  | nil => exact .ok _
  | cons c cs ih =>
    obtain ⟨hc, hcs⟩ := List.forall_mem_cons.mp h
    obtain ⟨v, w, hholds⟩ := holds_of_binds hc
    rw [allHold, hholds]
    refine .bind (c.operator.holds_failsBare v w) fun answer _ => ?_
    split
    · exact ih hcs
    · exact .ok _

/-! ## Conditions that are met -/

/-- Whether the condition can be asked and holds. -/
def met (b : Binding) (c : Condition) : Bool :=
  match c.holds b with
  | .ok true => true
  | _ => false

theorem met_iff : c.met b = true ↔ c.holds b = .ok true := by
  unfold met
  split
  · exact iff_of_true rfl ‹_›
  · rename_i hne
    exact iff_of_false Bool.false_ne_true hne

/-- Conditions asked in order all hold exactly if each of them is met on its own: that a false one
keeps the next one from being asked, or a failed one all of them, makes no difference. -/
theorem allHold_eq_true : allHold cs b = .ok true ↔ cs.all (met b) = true := by
  induction cs with
  | nil => exact iff_of_true rfl rfl
  | cons c cs ih =>
    rw [allHold, List.all_cons, Bool.and_eq_true, met_iff, ← ih, bind_eq_ok]
    constructor
    · rintro ⟨answer, hc, hrest⟩
      cases answer with
      | true => exact ⟨hc, hrest⟩
      | false => cases hrest
    · rintro ⟨hc, hcs⟩
      exact ⟨true, hc, hcs⟩

/-- A condition is met or not by the values of its variables alone. -/
theorem met_congr {d : Binding} (h : ∀ x ∈ c.variableNames, d.read x = b.read x) :
    c.met d = c.met b := by
  have hside : ∀ side ∈ [c.left, c.right], resolve d side = resolve b side := by
    intro side hs
    unfold resolve
    cases hn : Reference.name? side with
    | none => rfl
    | some x => exact h x (List.mem_filterMap.mpr ⟨side, hs, hn⟩)
  rw [met, met, holds, holds, hside c.left (by simp), hside c.right (by simp)]

end Condition

end RuleEngine
