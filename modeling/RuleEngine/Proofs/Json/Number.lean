import RuleEngine.Json.Reader
import RuleEngine.Proofs.Double.Decimal
import RuleEngine.Value.Overlong

/-!
# Numbers read back

A written number is a whole part, perhaps a point with places and perhaps an exponent. Reading it
takes the longest beginning that is a number, so what follows must not go on with the number
(`Follows`).

* `IsNumber`: the texts of numbers and what they stand for. They are read as such
  (`IsNumber.readNumber_eq`), and nothing else is (`readNumber_eq_ok`).
* `readNumber_eq_overlong`: a whole number with more digits than are read is refused, unless the
  text goes on with it (`GoesOn`).
-/

namespace RuleEngine.Json

variable {cs ds r : List Char} {places : Option (List Char)} {exponent : Option Int}
  {negative : Bool} {v : Value}

/-- What may follow a value: nothing, white space, a comma or a closing bracket. -/
def Follows (r : List Char) : Prop :=
  ∀ c ∈ r.head?, isSpace c = true ∨ c = ',' ∨ c = ']' ∨ c = '\x7d'

def IsDigits (cs : List Char) : Prop := cs ≠ [] ∧ ∀ c ∈ cs, c.isDigit = true

/-- A whole part: a zero, or digits that do not begin with one. -/
def IsWhole (cs : List Char) : Prop := cs = ['0'] ∨ IsDigits cs ∧ cs.head? ≠ some '0'

def digitsValue (cs : List Char) : Nat := Nat.ofDigitChars 10 cs 0

/-! ## Digits -/

theorem digits_eq_some (h : IsDigits cs) : Double.digits? cs = some (digitsValue cs) := by
  have hall : cs.all Char.isDigit = true := List.all_eq_true.mpr h.2
  rw [Double.digits?, if_neg (by simp [h.1, hall])]
  rfl

theorem spanDigits_append (h : ∀ c ∈ cs, c.isDigit = true)
    (hr : ∀ c ∈ r.head?, c.isDigit = false) : spanDigits (cs ++ r) = (cs, r) := by
  have hstop : r.takeWhile Char.isDigit = [] ∧ r.dropWhile Char.isDigit = r := by
    cases r with
    | nil => exact ⟨rfl, rfl⟩
    | cons c r => simp [hr c rfl]
  rw [spanDigits, List.takeWhile_append_of_pos h, List.dropWhile_append_of_pos h, hstop.1, hstop.2,
    List.append_nil]

theorem wholeDigits_append (h : IsWhole cs) (hr : ∀ c ∈ r.head?, c.isDigit = false) :
    wholeDigits (cs ++ r) = (cs, r) := by
  rcases h with rfl | ⟨⟨hne, hd⟩, hzero⟩
  · rfl
  · obtain ⟨c, cs, rfl⟩ := List.exists_cons_of_ne_nil hne
    have hc : c ≠ '0' := by simpa using hzero
    rw [← spanDigits_append hd hr]
    unfold wholeDigits
    split
    · rename_i heq
      exact absurd (List.cons.inj heq).1 hc
    · rfl

theorem toDigits_isDigits (n : Nat) : IsDigits (Nat.toDigits 10 n) :=
  ⟨Nat.toDigits_ne_nil, fun _ hc => Nat.isDigit_of_mem_toDigits (by decide) (by decide) hc⟩

theorem head_toDigits {n : Nat} (hn : 0 < n) : (Nat.toDigits 10 n).head? ≠ some '0' := by
  induction n using Nat.strongRecOn with
  | ind n ih =>
    by_cases hlt : n < 10
    · rw [Nat.toDigits_of_lt_base hlt]
      simpa using Nat.ne_of_gt hn
    · have hrest := ih (n / 10) (by omega) (by omega)
      rw [Nat.toDigits_of_base_le (by decide) (Nat.le_of_not_lt hlt)]
      cases hd : Nat.toDigits 10 (n / 10) with
      | nil => exact absurd hd Nat.toDigits_ne_nil
      | cons c cs => rwa [hd] at hrest

theorem toDigits_isWhole (n : Nat) : IsWhole (Nat.toDigits 10 n) := by
  rcases Nat.eq_zero_or_pos n with rfl | hn
  · exact .inl rfl
  · exact .inr ⟨toDigits_isDigits n, head_toDigits hn⟩

theorem digitsValue_toDigits (n : Nat) : digitsValue (Nat.toDigits 10 n) = n :=
  Nat.ofDigitChars_ten_toDigits

theorem isDigits_singleton {c : Char} (hc : c.isDigit = true) : IsDigits [c] :=
  ⟨List.cons_ne_nil _ _, List.forall_mem_singleton.mpr hc⟩

theorem isDigits_zero : IsDigits ['0'] := isDigits_singleton rfl

theorem IsWhole.isDigits (h : IsWhole cs) : IsDigits cs := by
  rcases h with rfl | ⟨h, -⟩
  · exact isDigits_zero
  · exact h

/-- What may follow a value does not go on with it. -/
theorem Follows.ends (h : Follows r) :
    ∀ c ∈ r.head?, c.isDigit = false ∧ c ≠ '.' ∧ c ≠ 'e' ∧ c ≠ 'E' := by
  intro c hc
  obtain hspace | rfl | rfl | rfl := h c hc
  · simp only [isSpace, Bool.or_eq_true, decide_eq_true_eq] at hspace
    obtain ((rfl | rfl) | rfl) | rfl := hspace <;> decide
  all_goals decide

theorem Follows.noDigit (h : Follows r) : ∀ c ∈ r.head?, c.isDigit = false :=
  fun c hc => (h.ends c hc).1

theorem spanDigits_eq (cs : List Char) : cs = (spanDigits cs).1 ++ (spanDigits cs).2 ∧
    (∀ c ∈ (spanDigits cs).1, c.isDigit = true) ∧
    ∀ c ∈ (spanDigits cs).2.head?, c.isDigit = false := by
  refine ⟨List.takeWhile_append_dropWhile.symm, ?_, ?_⟩
  · exact List.all_eq_true.mp List.all_takeWhile
  · intro c hc
    have := List.head?_dropWhile_not Char.isDigit cs
    rw [show cs.dropWhile Char.isDigit = (spanDigits cs).2 from rfl, hc] at this
    simpa using this

theorem digits_eq_some_iff {n : Nat} :
    Double.digits? cs = some n ↔ IsDigits cs ∧ digitsValue cs = n := by
  constructor
  · intro h
    have hd : IsDigits cs := by
      unfold Double.digits? at h
      split at h
      · cases h
      · rename_i hcs
        simp only [not_or, List.isEmpty_iff, Bool.not_eq_true', Bool.not_eq_false] at hcs
        exact ⟨hcs.1, List.all_eq_true.mp hcs.2⟩
    rw [digits_eq_some hd] at h
    exact ⟨hd, Option.some.inj h⟩
  · rintro ⟨hd, rfl⟩
    exact digits_eq_some hd

/-! ## The parts of a number -/

theorem wholeDigits_eq_some {n : Nat} (h : Double.digits? (wholeDigits cs).1 = some n) :
    cs = (wholeDigits cs).1 ++ (wholeDigits cs).2 ∧ IsWhole (wholeDigits cs).1 ∧
      digitsValue (wholeDigits cs).1 = n := by
  obtain ⟨hd, hn⟩ := digits_eq_some_iff.mp h
  refine ⟨?_, ?_, hn⟩
  · unfold wholeDigits
    split
    · rfl
    · exact (spanDigits_eq cs).1
  · unfold wholeDigits at *
    split at hd
    · exact .inl rfl
    · rename_i hzero
      refine .inr ⟨hd, fun hhead => ?_⟩
      obtain ⟨ds, hds⟩ := List.head?_eq_some_iff.mp hhead
      have hcs := (spanDigits_eq cs).1
      rw [hds] at hcs
      exact hzero _ hcs

theorem wholeDigits_rest (h : 1 < (wholeDigits cs).1.length) :
    ∀ c ∈ (wholeDigits cs).2.head?, c.isDigit = false := by
  unfold wholeDigits at *
  split at *
  · exact absurd h (Nat.lt_irrefl 1)
  · exact (spanDigits_eq cs).2.2

def pointed (places : Option (List Char)) : List Char := places.elim [] ('.' :: ·)

def scaled (exponent : Option Int) : List Char :=
  exponent.elim [] fun x => (Double.exponentText x).toList

theorem placeDigits_pointed (h : ∀ ds ∈ places, IsDigits ds)
    (hr : ∀ c ∈ r.head?, c.isDigit = false ∧ c ≠ '.') :
    placeDigits (pointed places ++ r) = (places, r) := by
  cases places with
  | none =>
    change placeDigits r = _
    unfold placeDigits
    split
    · exact absurd rfl (hr '.' rfl).2
    · rfl
  | some ds =>
    obtain ⟨hne, hd⟩ := h ds rfl
    change placeDigits ('.' :: (ds ++ r)) = _
    rw [placeDigits, spanDigits_append hd fun c hc => (hr c hc).1]
    cases ds with
    | nil => exact absurd rfl hne
    | cons => rfl

theorem placeDigits_eq (cs : List Char) :
    cs = pointed (placeDigits cs).1 ++ (placeDigits cs).2 ∧
      ∀ ds ∈ (placeDigits cs).1, IsDigits ds := by
  unfold placeDigits
  split
  · rename_i r
    obtain ⟨hr, hall, -⟩ := spanDigits_eq r
    split
    · exact ⟨rfl, nofun⟩
    · rename_i ds rest hne hspan
      rw [hspan] at hr hall
      refine ⟨congrArg (List.cons '.') hr, ?_⟩
      rintro _ ⟨⟩
      exact ⟨fun hnil => hne hnil, hall⟩
  · exact ⟨rfl, nofun⟩

theorem placeDigits_of_none (h : (placeDigits cs).1 = none) : placeDigits cs = (none, cs) := by
  have hcs := (placeDigits_eq cs).1
  rw [h] at hcs
  exact Prod.ext h hcs.symm

theorem exponentText_toList (x : Int) : ∃ ds, IsDigits ds ∧ digitsValue ds = x.natAbs ∧
    (Double.exponentText x).toList = 'e' :: (if x < 0 then '-' else '+') :: ds := by
  have hdigits := toDigits_isDigits x.natAbs
  have htext : (toString x.natAbs).toList = Nat.toDigits 10 x.natAbs := by
    rw [Nat.toString_eq_repr, Nat.toList_repr]
  by_cases hlen : (toString x.natAbs).length < 2
  · refine ⟨'0' :: Nat.toDigits 10 x.natAbs, ⟨by simp, ?_⟩, ?_, ?_⟩
    · exact List.forall_mem_cons.mpr ⟨rfl, hdigits.2⟩
    · exact digitsValue_toDigits _
    · simp only [Double.exponentText, if_pos hlen, String.toList_append, htext]
      split <;> rfl
  · refine ⟨Nat.toDigits 10 x.natAbs, hdigits, digitsValue_toDigits _, ?_⟩
    simp only [Double.exponentText, if_neg hlen, String.toList_append, htext]
    split <;> rfl

/-- The signs an exponent can have, and which of them is negative. -/
def exponentSigns : List (List Char × Bool) := [([], false), (['+'], false), (['-'], true)]

theorem splitSign_append {c : Char} {sign : List Char} (hs : (sign, negative) ∈ exponentSigns)
    (hc : c.isDigit = true) (r : List Char) : splitSign (sign ++ c :: r) = (negative, c :: r) := by
  simp only [exponentSigns, List.mem_cons, Prod.mk.injEq, List.not_mem_nil, or_false] at hs
  obtain ⟨rfl, rfl⟩ | ⟨rfl, rfl⟩ | ⟨rfl, rfl⟩ := hs
  · rw [List.nil_append]
    unfold splitSign
    split <;> simp_all
  · rfl
  · rfl

theorem exists_splitSign (cs : List Char) :
    ∃ sign, (sign, (splitSign cs).1) ∈ exponentSigns ∧ cs = sign ++ (splitSign cs).2 := by
  unfold splitSign
  split
  · exact ⟨['-'], by simp [exponentSigns], rfl⟩
  · exact ⟨['+'], by simp [exponentSigns], rfl⟩
  · exact ⟨[], by simp [exponentSigns], rfl⟩

/-- The text of an exponent, if there is one: its letter, perhaps a sign, and digits. -/
inductive IsExponent : List Char → Option Int → Prop where
  | none : IsExponent [] none
  | some {e : Char} {sign ds : List Char} {negative : Bool} (he : e = 'e' ∨ e = 'E')
      (hs : (sign, negative) ∈ exponentSigns) (hd : IsDigits ds) :
      IsExponent (e :: (sign ++ ds))
        (some (if negative then -(digitsValue ds : Int) else digitsValue ds))

theorem scaled_isExponent (exponent : Option Int) : IsExponent (scaled exponent) exponent := by
  cases exponent with
  | none => exact .none
  | some x =>
    obtain ⟨ds, hd, hval, htext⟩ := exponentText_toList x
    rw [scaled, Option.elim_some, htext]
    by_cases hx : x < 0
    · have hneg : -(x.natAbs : Int) = x := by omega
      rw [if_pos hx, ← hneg, ← hval]
      exact @IsExponent.some 'e' ['-'] ds true (.inl rfl) (by decide) hd
    · have hpos : (x.natAbs : Int) = x := by omega
      rw [if_neg hx, ← hpos, ← hval]
      exact @IsExponent.some 'e' ['+'] ds false (.inl rfl) (by decide) hd

theorem exponentDigits_append {xs : List Char} (h : IsExponent xs exponent)
    (hr : ∀ c ∈ r.head?, c.isDigit = false ∧ c ≠ 'e' ∧ c ≠ 'E') :
    exponentDigits (xs ++ r) = (exponent, r) := by
  cases h with
  | none =>
    rw [List.nil_append]
    unfold exponentDigits
    split
    · obtain ⟨-, he, hE⟩ := hr _ rfl
      rw [if_neg (not_or.mpr ⟨he, hE⟩)]
    · rfl
  | some he hs hd =>
    have hspan := spanDigits_append hd.2 fun c hc => (hr c hc).1
    have hdigits := digits_eq_some hd
    obtain ⟨c, ds, rfl⟩ := List.exists_cons_of_ne_nil hd.1
    rw [List.cons_append, List.append_assoc, exponentDigits, if_pos he, List.cons_append,
      splitSign_append hs (hd.2 c List.mem_cons_self), ← List.cons_append]
    simp only [hspan, hdigits]

theorem exponentDigits_eq (cs : List Char) :
    ∃ xs, IsExponent xs (exponentDigits cs).1 ∧ cs = xs ++ (exponentDigits cs).2 := by
  unfold exponentDigits
  split
  · rename_i e r
    split
    · rename_i he
      obtain ⟨sign, hs, hr⟩ := exists_splitSign r
      obtain ⟨hspan, -, -⟩ := spanDigits_eq (splitSign r).2
      dsimp only
      split
      · rename_i n hn
        obtain ⟨hd, rfl⟩ := digits_eq_some_iff.mp hn
        refine ⟨_, .some he hs hd, ?_⟩
        rw [List.cons_append, List.append_assoc, ← hspan, ← hr]
      · exact ⟨[], .none, rfl⟩
    · exact ⟨[], .none, rfl⟩
  · exact ⟨[], .none, rfl⟩

theorem exponentDigits_of_none (h : (exponentDigits cs).1 = none) :
    exponentDigits cs = (none, cs) := by
  obtain ⟨xs, hxs, hcs⟩ := exponentDigits_eq cs
  rw [h] at hxs
  cases hxs
  exact Prod.ext h hcs.symm

/-! ## What goes on with a number -/

/-- The text goes on with a number that could end before it: with a digit, with a point and a digit,
or with an exponent. -/
inductive GoesOn : List Char → Prop where
  | digit {c : Char} {s : List Char} (hc : c.isDigit = true) : GoesOn (c :: s)
  | places {c : Char} {s : List Char} (hc : c.isDigit = true) : GoesOn ('.' :: c :: s)
  | exponent {e c : Char} {sign s : List Char} {negative : Bool} (he : e = 'e' ∨ e = 'E')
      (hs : (sign, negative) ∈ exponentSigns) (hc : c.isDigit = true) :
      GoesOn (e :: (sign ++ c :: s))

theorem digits_spanDigits {c : Char} (hc : c.isDigit = true) (s : List Char) :
    Double.digits? (spanDigits (c :: s)).1 = some (digitsValue (spanDigits (c :: s)).1) :=
  digits_eq_some ⟨by simp [spanDigits, hc], (spanDigits_eq (c :: s)).2.1⟩

theorem placeDigits_of_not_goesOn (h : ¬ GoesOn r) : placeDigits r = (none, r) := by
  cases hplaces : (placeDigits r).1 with
  | none => exact placeDigits_of_none hplaces
  | some ds =>
    obtain ⟨hr, hd⟩ := placeDigits_eq r
    obtain ⟨hne, hall⟩ := hd ds hplaces
    obtain ⟨c, ds, rfl⟩ := List.exists_cons_of_ne_nil hne
    rw [hplaces] at hr
    rw [hr] at h
    exact absurd (.places (hall c List.mem_cons_self)) h

theorem exponentDigits_of_not_goesOn (h : ¬ GoesOn r) : exponentDigits r = (none, r) := by
  cases hexponent : (exponentDigits r).1 with
  | none => exact exponentDigits_of_none hexponent
  | some x =>
    obtain ⟨xs, hxs, hr⟩ := exponentDigits_eq r
    rw [hexponent] at hxs
    cases hxs with
    | some he hs hd =>
      obtain ⟨c, ds, rfl⟩ := List.exists_cons_of_ne_nil hd.1
      rw [List.cons_append, List.append_assoc, List.cons_append] at hr
      rw [hr] at h
      exact absurd (.exponent he hs (hd.2 c List.mem_cons_self)) h

/-- A number ends before a text if none of its parts begins there. -/
theorem not_goesOn_iff : ¬ GoesOn r ↔ (∀ c ∈ r.head?, c.isDigit = false) ∧
    placeDigits r = (none, r) ∧ exponentDigits r = (none, r) := by
  constructor
  · intro h
    refine ⟨fun c hc => ?_, placeDigits_of_not_goesOn h, exponentDigits_of_not_goesOn h⟩
    obtain ⟨s, rfl⟩ := List.head?_eq_some_iff.mp hc
    exact Bool.eq_false_iff.mpr fun hdigit => h (.digit hdigit)
  · rintro ⟨hdigit, hplaces, hexponent⟩ (hc | hc | ⟨he, hs, hc⟩)
    · exact Bool.false_ne_true ((hdigit _ rfl).symm.trans hc)
    · simp [placeDigits, spanDigits, hc] at hplaces
    · simp [exponentDigits, he, splitSign_append hs hc, digits_spanDigits hc] at hexponent

/-! ## Numbers -/

/-- The text of a number behind its sign, and what it stands for: a whole number of not too many
digits, or a double. -/
inductive IsNumber (negative : Bool) : List Char → Value → Prop where
  | whole {ds : List Char} (hw : IsWhole ds) (hlen : ds.length ≤ 4300) :
      IsNumber negative ds (.int (if negative then -(digitsValue ds : Int) else digitsValue ds))
  | float {ds xs : List Char} {places : Option (List Char)} {exponent : Option Int}
      (hw : IsWhole ds) (hp : ∀ ps ∈ places, IsDigits ps) (hx : IsExponent xs exponent)
      (hsome : places.isSome ∨ exponent.isSome) :
      IsNumber negative (ds ++ (pointed places ++ xs))
        (.float (Double.ofDecimal negative (digitsValue (ds ++ places.getD []))
          (exponent.getD 0 - (places.getD []).length)))

/-- What can be written has no more digits than are read. -/
theorem length_toDigits_le {n : Nat} (hn : n < Value.writtenBound) :
    (Nat.toDigits 10 n).length ≤ 4300 := by
  rw [Nat.length_toDigits_le_iff (by decide) (by decide)]
  exact Nat.lt_of_lt_of_le hn (by decide +kernel)

theorem readNumber_whole (hw : IsWhole ds) (negative : Bool) (hr : ¬ GoesOn r) :
    readNumber negative (ds ++ r) = if 4300 < ds.length then .error (.longInteger ds.length)
      else .ok (.int (if negative then -(digitsValue ds : Int) else digitsValue ds), r) := by
  obtain ⟨hdigit, hplaces, hexponent⟩ := not_goesOn_iff.mp hr
  simp only [readNumber, wholeDigits_append hw hdigit, hplaces, hexponent,
    digits_eq_some hw.isDigits]

theorem Follows.not_goesOn (h : Follows r) : ¬ GoesOn r := by
  refine not_goesOn_iff.mpr ⟨h.noDigit, ?_, ?_⟩
  · exact @placeDigits_pointed r none nofun fun c hc => ⟨(h.ends c hc).1, (h.ends c hc).2.1⟩
  · exact exponentDigits_append .none fun c hc => ⟨(h.ends c hc).1, (h.ends c hc).2.2⟩

theorem IsWhole.append_places (hw : IsWhole ds) (hp : ∀ ps ∈ places, IsDigits ps) :
    IsDigits (ds ++ places.getD []) := by
  refine ⟨by simp [hw.isDigits.1], fun c hc => ?_⟩
  rcases List.mem_append.mp hc with hc | hc
  · exact hw.isDigits.2 c hc
  · cases places with
    | none => cases hc
    | some ps => exact (hp ps rfl).2 c hc

/-- A number with a point or an exponent is read as the double nearest to it. -/
theorem readNumber_float {xs : List Char} (hw : IsWhole ds) (hp : ∀ ps ∈ places, IsDigits ps)
    (hx : IsExponent xs exponent) (hsome : places.isSome ∨ exponent.isSome) (negative : Bool)
    (hr : Follows r) : readNumber negative (ds ++ (pointed places ++ (xs ++ r))) =
      .ok (.float (Double.ofDecimal negative (digitsValue (ds ++ places.getD []))
        (exponent.getD 0 - (places.getD []).length)), r) := by
  have hexponent : exponentDigits (xs ++ r) = (exponent, r) :=
    exponentDigits_append hx fun c hc => ⟨(hr.ends c hc).1, (hr.ends c hc).2.2⟩
  have hscaled : ∀ c ∈ (xs ++ r).head?, c.isDigit = false ∧ c ≠ '.' := by
    cases hx with
    | none => exact fun c hc => ⟨(hr.ends c hc).1, (hr.ends c hc).2.1⟩
    | some he =>
      rintro _ ⟨⟩
      obtain rfl | rfl := he <;> decide
  have hpointed : ∀ c ∈ (pointed places ++ (xs ++ r)).head?, c.isDigit = false := by
    cases places with
    | none => exact fun c hc => (hscaled c hc).1
    | some ps =>
      intro c hc
      cases hc
      rfl
  simp only [readNumber, wholeDigits_append hw hpointed, placeDigits_pointed hp hscaled, hexponent,
    digits_eq_some hw.isDigits, digits_eq_some (hw.append_places hp)]
  cases places with
  | some ps => rfl
  | none =>
    cases exponent with
    | some x => rfl
    | none => simp at hsome

/-- The text of a number is read as what it stands for. -/
theorem IsNumber.readNumber_eq {t : List Char} (h : IsNumber negative t v) (hr : Follows r) :
    readNumber negative (t ++ r) = .ok (v, r) := by
  cases h with
  | whole hw hlen => rw [readNumber_whole hw negative hr.not_goesOn, if_neg (Nat.not_lt.mpr hlen)]
  | float hw hp hx hsome =>
    rw [List.append_assoc, List.append_assoc, readNumber_float hw hp hx hsome negative hr]

theorem readNumber_eq_ok (h : readNumber negative cs = .ok (v, r)) :
    ∃ t, cs = t ++ r ∧ IsNumber negative t v := by
  simp only [readNumber] at h
  obtain ⟨hplaces, hp⟩ := placeDigits_eq (wholeDigits cs).2
  obtain ⟨xs, hx, hrest⟩ := exponentDigits_eq (placeDigits (wholeDigits cs).2).2
  rw [hrest] at hplaces
  split at h
  · cases h
  · rename_i n hn hplace hexponent
    obtain ⟨hcs, hw, rfl⟩ := wholeDigits_eq_some hn
    rw [hplaces, hplace] at hcs
    rw [hexponent] at hx
    cases hx
    split at h
    · cases h
    · rename_i hlen
      cases h
      exact ⟨_, hcs, .whole hw (Nat.le_of_not_lt hlen)⟩
  · rename_i n hn hnone
    obtain ⟨hcs, hw, -⟩ := wholeDigits_eq_some hn
    rw [hplaces] at hcs
    rw [digits_eq_some (hw.append_places hp), Option.getD_some] at h
    cases h
    refine ⟨_, ?_, .float hw hp hx ?_⟩
    · rw [List.append_assoc, List.append_assoc]
      exact hcs
    · rw [Option.isSome_iff_ne_none, Option.isSome_iff_ne_none]
      exact Decidable.not_and_iff_not_or_not.mp fun hneither => hnone hneither.1 hneither.2

/-- Only a whole number is refused as too long, and only where the text does not go on with it. -/
theorem readNumber_eq_overlong {n : Nat} (h : readNumber negative cs = .error (.longInteger n)) :
    ∃ ds r, cs = ds ++ r ∧ IsWhole ds ∧ 4300 < ds.length ∧ n = ds.length ∧ ¬ GoesOn r := by
  simp only [readNumber] at h
  split at h
  · cases h
  · rename_i m hm hplace hexponent
    obtain ⟨hcs, hw, rfl⟩ := wholeDigits_eq_some hm
    split at h
    · rename_i hlen
      cases h
      have hplaces := placeDigits_of_none hplace
      rw [hplaces] at hexponent
      have hends := not_goesOn_iff.mpr
        ⟨wholeDigits_rest (by omega), hplaces, exponentDigits_of_none hexponent⟩
      exact ⟨_, _, hcs, hw, hlen, rfl, hends⟩
    · cases h
  · cases h

theorem readNumber_ne_loneSurrogate : readNumber negative cs ≠ .error .loneSurrogate := by
  intro h
  simp only [readNumber] at h
  split at h
  · cases h
  · split at h <;> cases h
  · cases h

/-! ## Numbers with their sign -/

/-- The sign of a number, which is written only if it is negative. -/
def signOf (negative : Bool) : List Char := (if negative then "-" else "").toList

theorem readPlain_unsigned {c : Char} (hc : c.isDigit = true) :
    readPlain (c :: r) = readNumber false (c :: r) := by
  have hne (a : Char) (ha : a.isDigit = false) : a ≠ c := by
    rintro rfl
    exact Bool.false_ne_true (ha.symm.trans hc)
  have hwords : (words.findSome? fun w => (word? w.1 (c :: r)).map fun r => (w.2, r)) = none := by
    simp [words, word?, hne]
  unfold readPlain
  rw [hwords]
  dsimp only
  split
  · rename_i heq
    exact absurd (List.cons.inj heq).1.symm (hne '-' rfl)
  · rfl

theorem readPlain_negative {c : Char} (hc : c.isDigit = true) :
    readPlain ('-' :: c :: r) = readNumber true (c :: r) := by
  have hne : 'I' ≠ c := by
    rintro rfl
    cases hc
  have hwords : (words.findSome? fun w => (word? w.1 ('-' :: c :: r)).map fun r => (w.2, r)) =
      none := by
    simp [words, word?, hne]
  unfold readPlain
  rw [hwords]
  rfl

theorem readPlain_signed (negative : Bool) (h : IsDigits cs) :
    readPlain (signOf negative ++ (cs ++ r)) = readNumber negative (cs ++ r) := by
  obtain ⟨c, cs, rfl⟩ := List.exists_cons_of_ne_nil h.1
  cases negative with
  | false => exact readPlain_unsigned (h.2 c List.mem_cons_self)
  | true => exact readPlain_negative (h.2 c List.mem_cons_self)

end RuleEngine.Json
