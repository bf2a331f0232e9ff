import RuleEngine.Proofs.Traced
import RuleEngine.Value.Attribute
import RuleEngine.Value.Overlong

/-!
# How computations fail

`FailsAs P` says of a computation that its error, where it fails, is one of `P`. It goes through
sequences (`FailsAs.bind`), and each check of a value has one fault that it fails with, so a
computation made of such checks is taken apart once for every `P`. Two sorts of faults matter below:
those that show no value (`Fault.IsBare`), which can always be written, and those in which the
operations of a session can end (`Fault.Legitimate`).
-/

namespace RuleEngine

variable {ε α β : Type}

/-- Where the computation fails, its error is one of these. -/
def FailsAs (P : ε → Prop) (x : Except ε α) : Prop := ∀ e, x = .error e → P e

namespace FailsAs

variable {P : ε → Prop} {x : Except ε α}

theorem ok (a : α) : FailsAs P (.ok a) := nofun

theorem pure (a : α) : FailsAs P (Pure.pure a : Except ε α) := ok a

theorem error {e : ε} (h : P e) : FailsAs P (.error e : Except ε α) := by
  intro e' he
  cases he
  exact h

theorem bind {f : α → Except ε β} (hx : FailsAs P x) (hf : ∀ a, x = .ok a → FailsAs P (f a)) :
    FailsAs P (x >>= f) := by
  intro e h
  rcases bind_eq_error.mp h with h | ⟨a, ha, h⟩
  · exact hx e h
  · exact hf a ha e h

theorem map (f : α → β) (hx : FailsAs P x) : FailsAs P (x.map f) :=
  fun e h => hx e (map_eq_error.mp h)

theorem mono {Q : ε → Prop} (hx : FailsAs P x) (h : ∀ e, P e → Q e) : FailsAs Q x :=
  fun e he => h e (hx e he)

end FailsAs

/-! ## Checks of values -/

section

variable {P : Fault → Prop}

theorem checkLength_failsAs (h : P .unwritableInteger) (long : Bool) :
    FailsAs P (checkLength long) := by
  cases long
  · exact .ok _
  · exact .error h

theorem Value.checkHashable_failsAs (h : ∀ c, P (.unhashable c)) (v : Value) :
    FailsAs P v.checkHashable := by
  unfold checkHashable
  split
  · exact .error (h _)
  · exact .ok _

theorem Value.attributeOf_failsAs (h : ∀ c n, P (.faultyAttribute c n)) (v : Value)
    (name : String) : FailsAs P (v.attributeOf name) := by
  unfold attributeOf
  split
  · split
    · exact .error (h _ _)
    · exact .ok _
  · exact .ok _

end

/-! ## Faults that show no value -/

namespace Fault

/-- The fault shows no value: it is neither that of a missing key nor one the host raised. -/
def IsBare : Fault → Prop
  | .missingKey _ | .raised .. => False
  | _ => True

namespace IsBare

variable {f : Fault}

theorem isOverlong (h : f.IsBare) : f.isOverlong = false := by
  cases f with
  | missingKey | raised => cases h
  | _ => rfl

theorem ne_missingKey {k : Value} (h : f.IsBare) : f ≠ .missingKey k := by
  rintro rfl
  cases h

end IsBare

/-! ## Faults of sessions -/

/-- The faults in which the operations of a session can end: something cannot be hashed or read off
a fact, or a number is too long to be written. -/
inductive Legitimate : Fault → Prop where
  | unhashable (cls : String) : Legitimate (.unhashable cls)
  | faultyAttribute (cls name : String) : Legitimate (.faultyAttribute cls name)
  | unwritableInteger : Legitimate .unwritableInteger

end Fault

abbrev FailsBare (x : Except Fault α) : Prop := FailsAs Fault.IsBare x

/-- Where the computation fails, its fault is a legitimate one. -/
abbrev FailsLegitimately (x : Except Fault α) : Prop := FailsAs Fault.Legitimate x

end RuleEngine
