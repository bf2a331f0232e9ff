import RuleEngine.Double.Decimal
import RuleEngine.Proofs.Double.Magnitude

/-!
# Decimals read back

The double nearest to a decimal depends on its value alone, so zeros may be moved between its digits
and its scale (`ofDecimal_shift`). A quotient that is a double exactly is read as that double
(`ofRatio_exact`). Together they say that the decimal which stands for a double reads back as it,
whether one of the short candidates does or the exact decimal has to be taken.

* `shortest_toDouble`: the decimal of a double that is not zero reads back.
-/

namespace RuleEngine.Double

/-! ## Rounding a quotient -/

theorem roundHalfEven_mul {c : Nat} (hc : 0 < c) (n d : Nat) :
    roundHalfEven (n * c) (d * c) = roundHalfEven n d := by
  have hlow : 2 * (n % d * c) < d * c ↔ 2 * (n % d) < d := by
    rw [← Nat.mul_assoc]
    exact Nat.mul_lt_mul_right hc
  have hhigh : d * c < 2 * (n % d * c) ↔ d < 2 * (n % d) := by
    rw [← Nat.mul_assoc]
    exact Nat.mul_lt_mul_right hc
  simp only [roundHalfEven, Nat.mul_div_mul_right n d hc, Nat.mul_mod_mul_right, hlow, hhigh]

theorem roundHalfEven_exact {d : Nat} (hd : 0 < d) (n : Nat) : roundHalfEven (n * d) d = n := by
  simp [roundHalfEven, Nat.mul_div_cancel n hd, hd]

theorem ofRatio_mul {c : Nat} (hc : 0 < c) (s : Bool) (n d : Nat) :
    ofRatio s (n * c) (d * c) = ofRatio s n d := by
  have hunits : n * c * Number.unitsInOne = n * Number.unitsInOne * c := Nat.mul_right_comm _ _ _
  simp only [ofRatio, hunits, Nat.mul_div_mul_right _ d hc, Nat.mul_right_comm d c,
    roundHalfEven_mul hc]

theorem log2_magnitude (e : Fin 2047) (f : Fin fractionCount) :
    (magnitude e f).log2 - 52 = e.val - 1 := by
  have hf : f.val < 2 ^ 52 := f.isLt
  unfold magnitude
  split
  · rename_i he
    have hlog : f.val.log2 < 53 := by
      by_cases h0 : f.val = 0
      · simp [h0]
      · exact (Nat.log2_lt h0).mpr (by omega)
    omega
  · have hc : fractionCount = 2 ^ 52 := rfl
    have hlow : 2 ^ (52 + (e.val - 1)) ≤ (fractionCount + f.val) * 2 ^ (e.val - 1) := by
      rw [Nat.pow_add]
      exact Nat.mul_le_mul_right _ (by omega)
    have hhigh : (fractionCount + f.val) * 2 ^ (e.val - 1) < 2 ^ (53 + (e.val - 1)) := by
      rw [Nat.pow_add]
      exact Nat.mul_lt_mul_of_pos_right (by omega) (Nat.pow_pos (by decide))
    have hne : (fractionCount + f.val) * 2 ^ (e.val - 1) ≠ 0 := by
      have := Nat.pow_pos (n := 52 + (e.val - 1)) (show 0 < 2 by decide)
      omega
    have h1 := (Nat.le_log2 hne).mpr hlow
    have h2 := (Nat.log2_lt hne).mpr hhigh
    change ((fractionCount + f.val) * 2 ^ (e.val - 1)).log2 - 52 = _
    omega

theorem ofOrdinal_finite (s : Bool) (e : Fin 2047) (f : Fin fractionCount) :
    ofOrdinal s (e.val * fractionCount + f.val) = .finite s e f := by
  have hdiv : (e.val * fractionCount + f.val) / fractionCount = e.val := by
    rw [Nat.mul_comm, Nat.mul_add_div (by decide), Nat.div_eq_of_lt f.isLt, Nat.add_zero]
  have hmod : (e.val * fractionCount + f.val) % fractionCount = f.val := by
    rw [Nat.mul_comm, Nat.mul_add_mod, Nat.mod_eq_of_lt f.isLt]
  have hlt : e.val * fractionCount + f.val < fractionCount * 2047 := by
    have hle : (e.val + 1) * fractionCount ≤ 2047 * fractionCount := Nat.mul_le_mul_right _ e.isLt
    rw [Nat.add_mul, Nat.one_mul] at hle
    have := f.isLt
    omega
  simp only [ofOrdinal, hlt, dif_pos, hdiv, hmod]

theorem ofRatio_exact {s : Bool} {e : Fin 2047} {f : Fin fractionCount} {n d : Nat} (hd : 0 < d)
    (h : n * Number.unitsInOne = magnitude e f * d) : ofRatio s n d = .finite s e f := by
  simp only [ofRatio, h, Nat.mul_div_cancel _ hd, log2_magnitude]
  rw [← ofOrdinal_finite]
  refine congrArg (ofOrdinal s) ?_
  by_cases he : e.val = 0
  · have hm : magnitude e f = f.val := if_pos he
    simp [hm, he, roundHalfEven_exact hd]
  · have hm : magnitude e f = (fractionCount + f.val) * 2 ^ (e.val - 1) := if_neg he
    have hpow : 0 < d * 2 ^ (e.val - 1) := Nat.mul_pos hd (Nat.pow_pos (by decide))
    rw [hm, Nat.mul_assoc, Nat.mul_comm _ d]
    change roundHalfEven ((fractionCount + f.val) * (d * 2 ^ (e.val - 1)))
      (d * 2 ^ (e.val - 1)) + _ = _
    rw [roundHalfEven_exact hpow]
    obtain ⟨k, hk⟩ := Nat.exists_eq_succ_of_ne_zero he
    rw [hk, Nat.succ_sub_one, Nat.succ_mul]
    omega

/-! ## Moving zeros -/

theorem length_toString (n : Nat) : (toString n).length = (Nat.toDigits 10 n).length := by
  rw [Nat.toString_eq_repr, Nat.repr_eq_ofList_toDigits, String.length_ofList]

theorem toDigits_mul_pow {n : Nat} (hn : 0 < n) (k : Nat) :
    Nat.toDigits 10 (n * 10 ^ k) = Nat.toDigits 10 n ++ List.replicate k '0' := by
  induction k with
  | zero => simp
  | succ k ih =>
    have hpos : 0 < n * 10 ^ k := Nat.mul_pos hn (Nat.pow_pos (by decide))
    have hdigit := Nat.toDigits_append_toDigits (b := 10) (d := 0) (by decide) hpos (by decide)
    rw [Nat.pow_succ, ← Nat.mul_assoc, Nat.mul_comm _ 10, ← Nat.add_zero (10 * _), ← hdigit, ih,
      Nat.toDigits_zero, List.append_assoc, List.replicate_succ']

theorem ofDecimal_shift (s : Bool) (n k : Nat) (e : Int) :
    ofDecimal s (n * 10 ^ k) (e - k) = ofDecimal s n e := by
  rcases Nat.eq_zero_or_pos n with rfl | hn
  · simp [ofDecimal]
  have hten (j : Nat) : 0 < 10 ^ j := Nat.pow_pos (by decide)
  have hne : n ≠ 0 := Nat.ne_of_gt hn
  have hpos : n * 10 ^ k ≠ 0 := Nat.mul_ne_zero hne (Nat.ne_of_gt (hten k))
  have hwidth : ((toString (n * 10 ^ k)).length : Int) + (e - k) = (toString n).length + e := by
    rw [length_toString, length_toString, toDigits_mul_pow hn, List.length_append,
      List.length_replicate]
    omega
  simp only [ofDecimal, hpos, hne, if_false, hwidth]
  split
  · rfl
  split
  · rfl
  simp only [Nat.pow_eq]
  by_cases he : 0 ≤ e
  · rw [if_pos he]
    split
    · rename_i hk
      have : e.toNat = k + (e - k).toNat := by omega
      rw [this, Nat.pow_add, Nat.mul_assoc]
    · have hexp : k = e.toNat + (-(e - k)).toNat := by omega
      rw [← ofRatio_mul (hten (-(e - k)).toNat) s (n * 10 ^ e.toNat) 1, Nat.mul_assoc,
        ← Nat.pow_add, ← hexp, Nat.one_mul]
  · have hexp : (-(e - k)).toNat = (-e).toNat + k := by omega
    rw [if_neg he, if_neg (by omega), hexp, Nat.pow_add]
    exact ofRatio_mul (hten k) s n _

theorem toDouble_strip (s : Bool) (fuel : Nat) (d : Decimal) :
    (d.strip fuel).toDouble s = d.toDouble s := by
  induction fuel generalizing d with
  | zero => rfl
  | succ fuel ih =>
    rw [Decimal.strip]
    split
    · rename_i h
      have hdigits : d.digits / 10 * 10 ^ 1 = d.digits := by omega
      have hscale : d.scale + 1 - (1 : Nat) = d.scale := by omega
      have hshift := ofDecimal_shift s (d.digits / 10) 1 (d.scale + 1)
      rw [hdigits, hscale] at hshift
      exact (ih _).trans hshift.symm
    · rfl

/-! ## The decimal of a double -/

variable {e : Fin 2047} {f : Fin fractionCount}

theorem length_toDigits_le {n k : Nat} (hk : 0 < k) :
    (Nat.toDigits 10 n).length ≤ k ↔ n < 10 ^ k :=
  Nat.length_toDigits_le_iff (by decide) hk

/-- The exact decimal of a double has neither so few nor so many digits that it would be taken for
zero or for an infinity. -/
theorem exact_width (h : magnitude e f ≠ 0) :
    674 ≤ (toString (magnitude e f * Nat.pow 5 1074)).length ∧
      (toString (magnitude e f * Nat.pow 5 1074)).length ≤ 1474 := by
  have hmag := magnitude_lt (e := e) (f := f)
  have hlow : 10 ^ 673 ≤ Nat.pow 5 1074 := by decide +kernel
  have hhigh : 2 ^ 53 * 2 ^ 2045 * Nat.pow 5 1074 < 10 ^ 1474 := by decide +kernel
  have hpos : 0 < Nat.pow 5 1074 := by decide +kernel
  generalize magnitude e f = m at h hmag
  generalize Nat.pow 5 1074 = p at hlow hhigh hpos
  rw [length_toString]
  constructor
  · have hmul : p ≤ m * p := Nat.le_mul_of_pos_left p (Nat.pos_of_ne_zero h)
    refine Nat.lt_of_not_le fun hle => ?_
    exact Nat.not_lt.mpr (Nat.le_trans hlow hmul) ((length_toDigits_le (by decide)).mp hle)
  · refine (length_toDigits_le (by decide)).mpr ?_
    exact Nat.lt_trans (Nat.mul_lt_mul_of_pos_right hmag hpos) hhigh

theorem exact_ofDecimal (s : Bool) (h : magnitude e f ≠ 0) :
    ofDecimal s (magnitude e f * Nat.pow 5 1074) (-1074) = .finite s e f := by
  obtain ⟨hlow, hhigh⟩ := exact_width h
  have hpos : 0 < Nat.pow 5 1074 := by decide +kernel
  have hne : magnitude e f * Nat.pow 5 1074 ≠ 0 := Nat.mul_ne_zero h (Nat.ne_of_gt hpos)
  have hten : 0 < Nat.pow 10 (-(-1074 : Int)).toNat := by decide +kernel
  have hunits : Nat.pow 5 1074 * Number.unitsInOne = Nat.pow 10 (-(-1074 : Int)).toNat := by
    decide +kernel
  rw [ofDecimal, if_neg hne, if_neg (by omega), if_neg (by omega),
    if_neg (by decide)]
  refine ofRatio_exact hten ?_
  rw [Nat.mul_assoc, hunits]

theorem ofDecimal_zero (s : Bool) (scale : Int) : ofDecimal s 0 scale = ofOrdinal s 0 := by
  rw [ofDecimal, if_pos rfl]

theorem ofOrdinal_zero (s : Bool) (h : magnitude e f = 0) : ofOrdinal s 0 = .finite s e f := by
  have hparts : e.val = 0 ∧ f.val = 0 := by
    unfold magnitude at h
    split at h
    · exact ⟨‹_›, h⟩
    · have hcount : 0 < fractionCount := by decide
      rcases Nat.mul_eq_zero.mp h with h | h
      · omega
      · exact absurd h (Nat.ne_of_gt (Nat.pow_pos (by decide)))
  rw [← ofOrdinal_finite s e f, hparts.1, hparts.2, Nat.zero_mul]

/-- The decimal that stands for a double other than zero reads back as it. -/
theorem shortest_toDouble (s : Bool) (h : magnitude e f ≠ 0) :
    (shortest s e f).toDouble s = .finite s e f := by
  have hexact := exact_ofDecimal s h
  unfold shortest
  generalize Nat.pow 5 1074 = p at hexact ⊢
  simp only
  cases hfound : (candidates (magnitude e f)).find?
      fun d => d.toDouble s == .finite s e f with
  | some d => simpa using List.find?_some hfound
  | none =>
    rw [Option.getD_none, toDouble_strip]
    exact hexact

/-- The decimal that stands for a double other than zero is not zero. -/
theorem shortest_digits_pos (s : Bool) (h : magnitude e f ≠ 0) : 0 < (shortest s e f).digits := by
  refine Nat.pos_of_ne_zero fun hzero => ?_
  have hread := shortest_toDouble s h
  have hnone : magnitude ⟨0, by decide⟩ ⟨0, by decide⟩ = 0 := rfl
  rw [Decimal.toDouble, hzero, ofDecimal_zero, ofOrdinal_zero s hnone] at hread
  cases hread
  exact h hnone

end RuleEngine.Double
