import RuleEngine.Fact.Canonical
import RuleEngine.Proofs.Json.Number

/-!
# Written numbers

The layout of a decimal moves its point by writing zeros or an exponent. It is always a number with
a point or an exponent, so it is never read as a whole number, and its value is that of the decimal.

* `exists_laidOut`: a decimal other than zero is laid out as a number of its value.
* `isNumber_finite`: the JSON text of a finite double is that of a number that stands for the
  double.
-/

namespace RuleEngine.Json

open Double (Decimal)

variable {cs : List Char} {d : Decimal}

theorem digitsValue_zeros (k : Nat) (cs : List Char) :
    digitsValue (List.replicate k '0' ++ cs) = digitsValue cs := by
  rw [digitsValue, Nat.ofDigitChars_append, Nat.ofDigitChars_replicate_zero, Nat.mul_zero]
  rfl

theorem digitsValue_append_zeros (cs : List Char) (k : Nat) :
    digitsValue (cs ++ List.replicate k '0') = digitsValue cs * 10 ^ k := by
  rw [digitsValue, Nat.ofDigitChars_append, Nat.ofDigitChars_replicate_zero, Nat.mul_comm]
  rfl

/-- The decimal is written as a number with these parts, whose value is that of the decimal. -/
structure LaidOut (d : Decimal) (whole : List Char) (places : Option (List Char))
    (exponent : Option Int) : Prop where
  isWhole : IsWhole whole
  areDigits : ∀ ds ∈ places, IsDigits ds
  isSome : places.isSome ∨ exponent.isSome
  text : d.layout.toList = whole ++ (pointed places ++ scaled exponent)
  value (s : Bool) : Double.ofDecimal s (digitsValue (whole ++ places.getD []))
    (exponent.getD 0 - (places.getD []).length) = d.toDouble s

def digitsOf (d : Decimal) : List Char := Nat.toDigits 10 d.digits

/-- How many digits of a decimal stand before its point. -/
def pointOf (d : Decimal) : Int := (digitsOf d).length + d.scale

theorem digitsOf_isDigits (d : Decimal) : IsDigits (digitsOf d) := toDigits_isDigits d.digits

theorem digitsValue_digitsOf (d : Decimal) : digitsValue (digitsOf d) = d.digits :=
  digitsValue_toDigits d.digits

theorem toString_digits (d : Decimal) : toString d.digits = String.ofList (digitsOf d) := by
  rw [Nat.toString_eq_repr, Nat.repr_eq_ofList_toDigits, digitsOf]

theorem pointOf_eq (d : Decimal) :
    ((String.ofList (digitsOf d)).length : Int) + d.scale = pointOf d := by
  rw [String.length_ofList, pointOf]

/-- Digits that begin like those of a decimal other than zero are a whole part. -/
theorem isWhole_of_head (hd : 0 < d.digits) (h : IsDigits cs)
    (hhead : cs.head? = (digitsOf d).head?) : IsWhole cs :=
  .inr ⟨h, hhead ▸ head_toDigits hd⟩

theorem isDigits_replicate (h : ∀ c ∈ cs, c.isDigit = true) (k : Nat) :
    (∀ c ∈ List.replicate k '0' ++ cs, c.isDigit = true) ∧
      ∀ c ∈ cs ++ List.replicate k '0', c.isDigit = true := by
  have hzero : ∀ c ∈ List.replicate k '0', c.isDigit = true := fun c hc => by
    rw [List.eq_of_mem_replicate hc]
    rfl
  exact ⟨List.forall_mem_append.mpr ⟨hzero, h⟩, List.forall_mem_append.mpr ⟨h, hzero⟩⟩

/-! ## The four layouts -/

/-- Below one, zeros stand between the point and the digits. -/
theorem laidOut_below_one (hlow : -4 < pointOf d) (hhigh : pointOf d ≤ 0) :
    LaidOut d ['0'] (some (List.replicate (-pointOf d).toNat '0' ++ digitsOf d)) none where
  isWhole := .inl rfl
  areDigits := by
    rintro _ ⟨⟩
    exact ⟨by simp [(digitsOf_isDigits d).1], (isDigits_replicate (digitsOf_isDigits d).2 _).1⟩
  isSome := .inl rfl
  text := by
    simp only [Decimal.layout, toString_digits, pointOf_eq]
    rw [if_pos ⟨hlow, by omega⟩, if_pos hhigh]
    simp [pointed, scaled]
  value s := by
    have hzeros := digitsValue_zeros ((-pointOf d).toNat + 1) (digitsOf d)
    have hscale : (0 : Int) - ((List.replicate (-pointOf d).toNat '0' ++ digitsOf d).length : Int) =
        d.scale := by
      have hpoint : pointOf d = (digitsOf d).length + d.scale := rfl
      rw [List.length_append, List.length_replicate]
      omega
    rw [List.replicate_succ, List.cons_append, digitsValue_digitsOf] at hzeros
    simp only [Option.getD_some, Option.getD_none, List.singleton_append, hzeros, hscale]
    rfl

/-- A whole number has zeros behind its digits and one place. -/
theorem laidOut_whole (hd : 0 < d.digits) (hlow : ((digitsOf d).length : Int) ≤ pointOf d)
    (hhigh : pointOf d ≤ 16) :
    LaidOut d (digitsOf d ++ List.replicate (pointOf d - (digitsOf d).length).toNat '0')
      (some ['0']) none where
  isWhole := by
    have hne := (digitsOf_isDigits d).1
    refine isWhole_of_head hd ⟨by simp [hne], (isDigits_replicate (digitsOf_isDigits d).2 _).2⟩ ?_
    obtain ⟨c, cs, hcs⟩ := List.exists_cons_of_ne_nil hne
    simp [hcs]
  areDigits := by
    rintro _ ⟨⟩
    exact isDigits_zero
  isSome := .inl rfl
  text := by
    have hpos := List.length_pos_iff.mpr (digitsOf_isDigits d).1
    simp only [Decimal.layout, toString_digits, pointOf_eq]
    rw [if_pos ⟨by omega, hhigh⟩, if_neg (by omega), if_pos (by simpa using hlow)]
    simp [pointed, scaled]
  value s := by
    have hpoint : pointOf d = (digitsOf d).length + d.scale := rfl
    generalize hk : (pointOf d - (digitsOf d).length).toNat = k
    have hshift := Double.ofDecimal_shift s d.digits (k + 1) d.scale
    have hzeros := digitsValue_append_zeros (digitsOf d) (k + 1)
    have hscale : d.scale - ((k + 1 : Nat) : Int) = 0 - 1 := by omega
    rw [List.replicate_succ', ← List.append_assoc, digitsValue_digitsOf] at hzeros
    rw [hscale] at hshift
    simp only [Option.getD_some, Option.getD_none, List.length_singleton, hzeros]
    exact hshift

/-- Otherwise the point stands between two digits. -/
theorem laidOut_between (hd : 0 < d.digits) (hlow : 0 < pointOf d)
    (hhigh : pointOf d < (digitsOf d).length) (hle : pointOf d ≤ 16) :
    LaidOut d ((digitsOf d).take (pointOf d).toNat) (some ((digitsOf d).drop (pointOf d).toNat))
      none where
  isWhole := by
    obtain ⟨hne, hdigits⟩ := digitsOf_isDigits d
    have hpos : (pointOf d).toNat ≠ 0 := by omega
    refine isWhole_of_head hd ⟨?_, fun c hc => hdigits c (List.mem_of_mem_take hc)⟩ ?_
    · simp [List.take_eq_nil_iff, hne, hpos]
    · rw [List.head?_take, if_neg hpos]
  areDigits := by
    rintro _ ⟨⟩
    obtain ⟨-, hdigits⟩ := digitsOf_isDigits d
    refine ⟨?_, fun c hc => hdigits c (List.mem_of_mem_drop hc)⟩
    simp only [ne_eq, List.drop_eq_nil_iff]
    omega
  isSome := .inl rfl
  text := by
    simp only [Decimal.layout, toString_digits, pointOf_eq]
    rw [if_pos ⟨by omega, by omega⟩, if_neg (by omega), if_neg (by simpa using hhigh)]
    simp [pointed, scaled]
  value s := by
    have hpoint : pointOf d = (digitsOf d).length + d.scale := rfl
    have hscale : (0 : Int) - (((digitsOf d).drop (pointOf d).toNat).length : Int) = d.scale := by
      rw [List.length_drop]
      omega
    simp only [Option.getD_some, Option.getD_none, List.take_append_drop, digitsValue_digitsOf,
      hscale]
    rfl

/-- Very small and very large numbers have one digit before the point and an exponent. -/
theorem laidOut_scientific (hd : 0 < d.digits) (h : ¬ (-4 < pointOf d ∧ pointOf d ≤ 16)) :
    ∃ whole places, LaidOut d whole places (some (pointOf d - 1)) := by
  have hpoint : pointOf d = (digitsOf d).length + d.scale := rfl
  have hvalue := digitsValue_digitsOf d
  have hlayout : d.layout = String.ofList ((digitsOf d).take 1) ++
      (if ((digitsOf d).drop 1).isEmpty then "" else "." ++ String.ofList ((digitsOf d).drop 1)) ++
      Double.exponentText (pointOf d - 1) := by
    simp only [Decimal.layout, toString_digits, pointOf_eq, String.toList_ofList, if_neg h]
  obtain ⟨hne, hdigits⟩ := digitsOf_isDigits d
  obtain ⟨c, cs, hcs⟩ := List.exists_cons_of_ne_nil hne
  have hwhole : IsWhole [c] := isWhole_of_head hd ⟨by simp, by simp_all⟩ (by simp [hcs])
  rw [hcs] at hvalue hlayout hpoint hdigits
  cases cs with
  | nil =>
    refine ⟨[c], none, hwhole, nofun, .inr rfl, ?_, fun s => ?_⟩
    · simp [hlayout, pointed, scaled]
    · have hscale : pointOf d - 1 - (0 : Nat) = d.scale := by
        simp at hpoint
        omega
      simp only [Option.getD_none, List.append_nil, hvalue, Option.getD_some, List.length_nil,
        hscale]
      rfl
  | cons c' cs =>
    have hplaces : IsDigits (c' :: cs) := ⟨by simp, (List.forall_mem_cons.mp hdigits).2⟩
    refine ⟨[c], some (c' :: cs), hwhole, ?_, .inr rfl, ?_, fun s => ?_⟩
    · rintro _ ⟨⟩
      exact hplaces
    · simp [hlayout, pointed, scaled]
    · have hscale : pointOf d - 1 - ((c' :: cs).length : Int) = d.scale := by
        simp only [List.length_cons] at hpoint ⊢
        omega
      simp only [Option.getD_some, List.singleton_append, hvalue, hscale]
      rfl

theorem exists_laidOut (hd : 0 < d.digits) :
    ∃ whole places exponent, LaidOut d whole places exponent := by
  by_cases h : -4 < pointOf d ∧ pointOf d ≤ 16
  · by_cases hone : pointOf d ≤ 0
    · exact ⟨_, _, _, laidOut_below_one h.1 hone⟩
    · by_cases hwhole : ((digitsOf d).length : Int) ≤ pointOf d
      · exact ⟨_, _, _, laidOut_whole hd hwhole h.2⟩
      · exact ⟨_, _, _, laidOut_between hd (by omega) (by omega) h.2⟩
  · obtain ⟨whole, places, hlaid⟩ := laidOut_scientific hd h
    exact ⟨whole, places, _, hlaid⟩

/-! ## Numbers as they are written -/

theorem toList_int (n : Int) :
    (toString n).toList = signOf (n < 0) ++ Nat.toDigits 10 n.natAbs := by
  rw [Int.toString_eq_repr, Int.repr_eq_if]
  by_cases hneg : n < 0
  · have habs : (-n).toNat = n.natAbs := by omega
    rw [if_neg (by omega), habs, String.toList_append, Nat.toList_repr, decide_eq_true hneg]
    rfl
  · have habs : n.toNat = n.natAbs := by omega
    rw [if_pos (by omega), habs, Nat.toList_repr, decide_eq_false hneg]
    rfl

theorem isNumber_int {n : Int} (hn : n.natAbs < Value.writtenBound) :
    IsNumber (n < 0) (Nat.toDigits 10 n.natAbs) (.int n) := by
  have hvalue : (if decide (n < 0) then -(digitsValue (Nat.toDigits 10 n.natAbs) : Int)
      else digitsValue (Nat.toDigits 10 n.natAbs)) = n := by
    rw [digitsValue_toDigits]
    by_cases hneg : n < 0
    · rw [if_pos (decide_eq_true hneg)]
      omega
    · rw [if_neg (by simpa using hneg)]
      omega
  have h : IsNumber (n < 0) _ _ := .whole (toDigits_isWhole n.natAbs) (length_toDigits_le hn)
  rwa [hvalue] at h

theorem laidOut_zero : LaidOut ⟨0, 0⟩ ['0'] (some ['0']) none where
  isWhole := .inl rfl
  areDigits := by
    rintro _ ⟨⟩
    exact isDigits_zero
  isSome := .inl rfl
  text := by decide
  value s := (Double.ofDecimal_zero s _).trans (Double.ofDecimal_zero s _).symm

theorem exists_laidOut_finite (s : Bool) (e : Fin 2047) (f : Fin Double.fractionCount) :
    ∃ d whole places exponent, LaidOut d whole places exponent ∧
      d.toDouble s = .finite s e f ∧
      (Double.finite s e f).json.toList = signOf s ++ d.layout.toList := by
  have htext : (Double.finite s e f).json = (if s then "-" else "") ++
      (if Double.magnitude e f = 0 then "0.0" else (Double.shortest s e f).layout) := rfl
  rw [htext, String.toList_append]
  by_cases hzero : Double.magnitude e f = 0
  · rw [if_pos hzero]
    refine ⟨⟨0, 0⟩, _, _, _, laidOut_zero, ?_, rfl⟩
    exact (Double.ofDecimal_zero s 0).trans (Double.ofOrdinal_zero s hzero)
  · obtain ⟨whole, places, exponent, hlaid⟩ := exists_laidOut (Double.shortest_digits_pos s hzero)
    rw [if_neg hzero]
    exact ⟨_, whole, places, exponent, hlaid, Double.shortest_toDouble s hzero, rfl⟩

/-- The JSON text of a finite double is that of a number that stands for the double. -/
theorem isNumber_finite (s : Bool) (e : Fin 2047) (f : Fin Double.fractionCount) :
    ∃ t, (Double.finite s e f).json.toList = signOf s ++ t ∧
      IsNumber s t (.float (.finite s e f)) := by
  obtain ⟨d, whole, places, exponent, hlaid, hdouble, htext⟩ := exists_laidOut_finite s e f
  have h : IsNumber s _ _ :=
    .float hlaid.isWhole hlaid.areDigits (scaled_isExponent exponent) hlaid.isSome
  rw [hlaid.value, hdouble] at h
  exact ⟨_, by rw [htext, hlaid.text], h⟩

end RuleEngine.Json
