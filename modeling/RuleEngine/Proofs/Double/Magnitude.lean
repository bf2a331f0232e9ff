import Mathlib.Algebra.Group.Nat.Defs
import RuleEngine.Value.Overlong

/-!
# How large a double can be

A finite double has fewer than `2 ^ 2098` units, so a whole number that a double is has never too
many digits to be written.
-/

namespace RuleEngine

/-- A whole number is not further from zero than the units it is made of. -/
theorem Number.natAbs_le {units n : Int} (h : ofUnits units = .whole n) :
    n.natAbs ≤ units.natAbs := by
  unfold ofUnits at h
  split at h
  · cases h
    exact Int.natAbs_ediv_le_natAbs _ _
  · cases h

theorem Number.ofUnits_ne_nan (units : Int) : ofUnits units ≠ .nan := by
  unfold ofUnits
  split <;> nofun

namespace Double

variable {e : Fin 2047} {f : Fin fractionCount}

theorem magnitude_lt : magnitude e f < 2 ^ 53 * 2 ^ 2045 := by
  have hcount : fractionCount + f.val < 2 ^ 53 := by
    have hf := f.isLt
    have hc : fractionCount = 2 ^ 52 := rfl
    omega
  have hscaled {k n : Nat} (hk : k ≤ n) : (fractionCount + f.val) * 2 ^ k < 2 ^ 53 * 2 ^ n :=
    Nat.mul_lt_mul_of_lt_of_le hcount (Nat.pow_le_pow_right (by decide) hk)
      (Nat.pow_pos (by decide))
  have hzero := hscaled (n := 2045) (Nat.zero_le 2045)
  rw [Nat.pow_zero] at hzero
  have he : e.val - 1 ≤ 2045 := by omega
  unfold magnitude
  split
  · exact Nat.lt_of_le_of_lt (by omega) hzero
  · exact hscaled (n := 2045) he

theorem whole_lt {x : Double} {n : Int} (h : x.number = .whole n) :
    n.natAbs < Value.writtenBound := by
  cases x with
  | nan => cases h
  | infinite s => cases h
  | finite s e f =>
    refine Nat.lt_of_le_of_lt (Number.natAbs_le h) ?_
    have hm : magnitude e f < Value.writtenBound := Nat.lt_trans magnitude_lt (by decide +kernel)
    cases s <;> simpa using hm

end Double

end RuleEngine
