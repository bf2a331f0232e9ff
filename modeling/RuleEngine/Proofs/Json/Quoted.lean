import RuleEngine.Proofs.Text.Hex
import RuleEngine.Proofs.Traced
import RuleEngine.Text.JsonQuoted

/-!
# Strings read back

What stands between the marks of a string spells its characters (`Spells`), each by itself or by an
escape. Reading goes on to the closing mark and answers with what was spelled
(`Spells.readString_eq`), and nothing else is read (`readString_eq_ok`). Where half of a surrogate
pair is escaped alone, no character is spelled and reading stops (`Strays.readString_eq`,
`readString_eq_error`).

* `spells_flatMap`: a text is spelled by its form inside a string.
-/

namespace RuleEngine.Json

open Text (jsonEscape hexDigits)

variable {fuel n high : Nat} {c : Char} {cs hs r s t : List Char}

/-! ## Numeric escapes -/

/-- Four hexadecimal digits and the number they write. -/
def IsCode (hs : List Char) (n : Nat) : Prop := hs.length = 4 ∧ hexNumber? hs = some n

/-- The text goes on with the escape that makes a pair with the half before it. -/
def GoesOnPaired (high : Nat) (t : List Char) : Prop :=
  ∃ ls low c u, IsCode ls low ∧ pair? high low = some c ∧ t = '\\' :: 'u' :: (ls ++ u)

theorem IsCode.hexCode_append (h : IsCode hs n) (r : List Char) :
    hexCode? (hs ++ r) = some (n, r) := by
  obtain ⟨hlen, hn⟩ := h
  have hlong : ¬ (hs ++ r).length < 4 := by
    rw [List.length_append]
    omega
  rw [hexCode?, if_neg hlong, List.take_left' hlen, List.drop_left' hlen, hn]
  rfl

theorem hexCode_eq_some (h : hexCode? cs = some (n, r)) : ∃ hs, IsCode hs n ∧ cs = hs ++ r := by
  unfold hexCode? at h
  split at h
  · cases h
  · obtain ⟨m, hm, heq⟩ := Option.map_eq_some_iff.mp h
    cases heq
    refine ⟨cs.take 4, ⟨?_, hm⟩, (List.take_append_drop 4 cs).symm⟩
    rw [List.length_take]
    omega

theorem paired_eq_some : paired? high cs = some (c, r) ↔
    ∃ ls low, IsCode ls low ∧ pair? high low = some c ∧ cs = '\\' :: 'u' :: (ls ++ r) := by
  constructor
  · intro h
    unfold paired? at h
    split at h
    · simp only [Option.bind_eq_bind, Option.bind_eq_some_iff, Option.some.injEq,
        Prod.mk.injEq] at h
      obtain ⟨⟨low, u⟩, hcode, d, hd, rfl, rfl⟩ := h
      obtain ⟨ls, hls, rfl⟩ := hexCode_eq_some hcode
      exact ⟨ls, low, hls, hd, rfl⟩
    · cases h
  · rintro ⟨ls, low, hls, hc, rfl⟩
    simp [paired?, hls.hexCode_append, hc]

theorem paired_eq_none : paired? high t = none ↔ ¬ GoesOnPaired high t := by
  rw [Option.eq_none_iff_forall_ne_some, GoesOnPaired]
  constructor
  · rintro h ⟨ls, low, c, u, hls, hc, ht⟩
    exact h (c, u) (paired_eq_some.mpr ⟨ls, low, hls, hc, ht⟩)
  · rintro h ⟨c, u⟩ hp
    obtain ⟨ls, low, hls, hc, ht⟩ := paired_eq_some.mp hp
    exact h ⟨ls, low, c, u, hls, hc, ht⟩

/-- The text behind `\u` is half of a pair that stands alone. -/
def IsLone (cs : List Char) : Prop :=
  ∃ hs n r, IsCode hs n ∧ scalar? n = none ∧ ¬ GoesOnPaired n r ∧ cs = hs ++ r

theorem numericEscape_pair {ls : List Char} {low : Nat} (hhigh : IsCode hs high)
    (hlow : IsCode ls low) (hc : pair? high low = some c) (r : List Char) :
    numericEscape (hs ++ '\\' :: 'u' :: (ls ++ r)) = .ok (c, r) := by
  have hpaired : paired? high ('\\' :: 'u' :: (ls ++ r)) = some (c, r) :=
    paired_eq_some.mpr ⟨ls, low, hlow, hc, rfl⟩
  simp only [numericEscape, hhigh.hexCode_append, hpaired]

theorem paired_eq_none_of_scalar (hc : scalar? n = some c) (cs : List Char) :
    paired? n cs = none := by
  unfold scalar? at hc
  split at hc
  · rename_i hvalid
    rw [Option.eq_none_iff_forall_ne_some]
    rintro ⟨d, r⟩ hp
    obtain ⟨ls, low, -, hpair, -⟩ := paired_eq_some.mp hp
    unfold pair? at hpair
    split at hpair
    · unfold Nat.isValidChar at hvalid
      omega
    · cases hpair
  · cases hc

theorem numericEscape_single (hn : IsCode hs n) (hc : scalar? n = some c) (r : List Char) :
    numericEscape (hs ++ r) = .ok (c, r) := by
  simp only [numericEscape, hn.hexCode_append, paired_eq_none_of_scalar hc, hc]

theorem IsLone.numericEscape_eq (h : IsLone cs) : numericEscape cs = .error .loneSurrogate := by
  obtain ⟨hs, n, r, hn, hscalar, halone, rfl⟩ := h
  simp only [numericEscape, hn.hexCode_append, paired_eq_none.mpr halone, hscalar]

theorem numericEscape_eq_ok (h : numericEscape cs = .ok (c, r)) : ∃ hs high, IsCode hs high ∧
    ((∃ ls low, IsCode ls low ∧ pair? high low = some c ∧ cs = hs ++ '\\' :: 'u' :: (ls ++ r)) ∨
      scalar? high = some c ∧ cs = hs ++ r) := by
  unfold numericEscape at h
  split at h
  · cases h
  · rename_i high u hcode
    obtain ⟨hs, hhigh, rfl⟩ := hexCode_eq_some hcode
    refine ⟨hs, high, hhigh, ?_⟩
    split at h
    · rename_i hpaired
      cases h
      obtain ⟨ls, low, hlow, hc, rfl⟩ := paired_eq_some.mp hpaired
      exact .inl ⟨ls, low, hlow, hc, rfl⟩
    · rename_i hscalar
      cases h
      exact .inr ⟨hscalar, rfl⟩
    · cases h

/-- A numeric escape is refused if it has no digits, or if it is half of a pair alone. -/
theorem numericEscape_eq_error {e : ReadError} (h : numericEscape cs = .error e) :
    e = .malformed ∨ e = .loneSurrogate ∧ IsLone cs := by
  unfold numericEscape at h
  split at h
  · cases h
    exact .inl rfl
  · rename_i high u hcode
    obtain ⟨hs, hhigh, rfl⟩ := hexCode_eq_some hcode
    split at h
    · cases h
    · cases h
    · rename_i hpaired hscalar
      cases h
      exact .inr ⟨rfl, hs, high, u, hhigh, hscalar, paired_eq_none.mp hpaired, rfl⟩

theorem hexValue_of_mem {m : Nat}
    (h : hs.foldlM (fun n c => (Text.hexValue? c).map (16 * n + ·)) m = some n) :
    ∀ c ∈ hs, ∃ k, Text.hexValue? c = some k := by
  induction hs generalizing m with
  | nil => exact List.forall_mem_nil _
  | cons c hs ih =>
    simp only [List.foldlM_cons, Option.bind_eq_bind, Option.bind_eq_some_iff,
      Option.map_eq_some_iff] at h
    obtain ⟨_, ⟨k, hk, -⟩, hrest⟩ := h
    exact List.forall_mem_cons.mpr ⟨⟨k, hk⟩, ih hrest⟩

/-! ## Strings -/

/-- The text inside a string and the characters it spells. Two halves of a pair spell one character
together; a half alone spells none. -/
inductive Spells : List Char → List Char → Prop where
  | nil : Spells [] []
  | plain {c : Char} {t s : List Char} (hmark : c ≠ '"') (hslash : c ≠ '\\') (hc : 0x20 ≤ c.toNat)
      (h : Spells t s) : Spells (c :: t) (c :: s)
  | short {e c : Char} {t s : List Char} (he : shortEscape? e = some c) (h : Spells t s) :
      Spells ('\\' :: e :: t) (c :: s)
  | single {hs t s : List Char} {n : Nat} {c : Char} (hn : IsCode hs n) (hc : scalar? n = some c)
      (h : Spells t s) : Spells ('\\' :: 'u' :: (hs ++ t)) (c :: s)
  | pair {hs ls t s : List Char} {high low : Nat} {c : Char} (hhigh : IsCode hs high)
      (hlow : IsCode ls low) (hc : pair? high low = some c) (h : Spells t s) :
      Spells ('\\' :: 'u' :: (hs ++ '\\' :: 'u' :: (ls ++ t))) (c :: s)

/-- The text behind an opening mark spells characters up to half of a pair that stands alone. -/
def Strays (cs : List Char) : Prop :=
  ∃ t s u, Spells t s ∧ IsLone u ∧ cs = t ++ '\\' :: 'u' :: u

/-- What has been read behind a character, with the character in front. -/
def consRead (c : Char) (p : List Char × List Char) : List Char × List Char := (c :: p.1, p.2)

theorem readChars_short {e : Char} (he : shortEscape? e = some c) (fuel : Nat) (t : List Char) :
    readChars (fuel + 1) ('\\' :: e :: t) = (readChars fuel t).map (consRead c) := by
  have hu : e ≠ 'u' := by
    rintro rfl
    cases he
  simp only [readChars, he]
  cases readChars fuel t <;> rfl

theorem readChars_numeric (he : numericEscape cs = .ok (c, t)) (fuel : Nat) :
    readChars (fuel + 1) ('\\' :: 'u' :: cs) = (readChars fuel t).map (consRead c) := by
  simp only [readChars, he, bind, Except.bind]
  cases readChars fuel t <;> rfl

theorem readChars_plain (hmark : c ≠ '"') (hslash : c ≠ '\\') (hc : 0x20 ≤ c.toNat) (fuel : Nat)
    (t : List Char) : readChars (fuel + 1) (c :: t) = (readChars fuel t).map (consRead c) := by
  conv_lhs => unfold readChars
  split
  · rename_i heq
    exact absurd (List.cons.inj heq).1 hmark
  · rename_i heq
    exact absurd (List.cons.inj heq).1 hslash
  · rename_i heq
    exact absurd (List.cons.inj heq).1 hslash
  · rename_i heq
    cases heq
    rw [if_neg (not_or.mpr ⟨hslash, Nat.not_lt.mpr hc⟩)]
    cases readChars fuel t <;> rfl
  · contradiction

theorem Spells.readChars_append (h : Spells t s) (fuel : Nat) (u : List Char) :
    readChars (fuel + s.length) (t ++ u) =
      (readChars fuel u).map fun p => (s ++ p.1, p.2) := by
  have hcons (c : Char) (s : List Char) (x : Except ReadError (List Char × List Char)) :
      (x.map fun p => (s ++ p.1, p.2)).map (consRead c) =
        x.map fun p => (c :: (s ++ p.1), p.2) := by
    cases x <;> rfl
  induction h with
  | nil =>
    rw [List.nil_append, List.length_nil, Nat.add_zero]
    cases readChars fuel u <;> rfl
  | plain hmark hslash hc h ih =>
    rw [List.cons_append, List.length_cons, ← Nat.add_assoc,
      readChars_plain hmark hslash hc, ih, hcons]
    rfl
  | short he h ih =>
    rw [List.cons_append, List.cons_append, List.length_cons, ← Nat.add_assoc,
      readChars_short he, ih, hcons]
    rfl
  | single hn hc h ih =>
    rw [List.cons_append, List.cons_append, List.append_assoc, List.length_cons, ← Nat.add_assoc,
      readChars_numeric (numericEscape_single hn hc _), ih, hcons]
    rfl
  | pair hhigh hlow hc h ih =>
    simp only [List.cons_append, List.append_assoc]
    rw [List.length_cons, ← Nat.add_assoc,
      readChars_numeric (numericEscape_pair hhigh hlow hc _), ih, hcons]

theorem Spells.length_le (h : Spells t s) : s.length ≤ t.length := by
  induction h <;> simp only [List.length_cons, List.length_append, List.length_nil] <;> omega

theorem Spells.exists_fuel (h : Spells t s) (u : List Char) :
    ∃ fuel, (t ++ u).length + 1 = fuel + 1 + s.length :=
  ⟨(t ++ u).length - s.length, by
    have := h.length_le
    rw [List.length_append]
    omega⟩

theorem Spells.readString_eq (h : Spells t s) (r : List Char) :
    readString (t ++ '"' :: r) = .ok (String.ofList s, r) := by
  obtain ⟨fuel, hfuel⟩ := h.exists_fuel ('"' :: r)
  have hmark : readChars (fuel + 1) ('"' :: r) = .ok ([], r) := rfl
  rw [readString, hfuel, h.readChars_append, hmark]
  simp [Except.map, bind, Except.bind, pure, Except.pure]

/-- A string that comes upon half of a pair alone is refused for it. -/
theorem Strays.readString_eq (h : Strays cs) : readString cs = .error .loneSurrogate := by
  obtain ⟨t, s, u, hspells, hlone, rfl⟩ := h
  obtain ⟨fuel, hfuel⟩ := hspells.exists_fuel ('\\' :: 'u' :: u)
  have hstop : readChars (fuel + 1) ('\\' :: 'u' :: u) = .error .loneSurrogate := by
    simp only [readChars, hlone.numericEscape_eq, bind, Except.bind]
  rw [readString, hfuel, hspells.readChars_append, hstop]
  rfl

theorem readChars_eq_ok (h : readChars fuel cs = .ok (s, r)) :
    ∃ t, cs = t ++ '"' :: r ∧ Spells t s := by
  induction fuel generalizing cs s with
  | zero => cases h
  | succ fuel ih =>
    unfold readChars at h
    split at h
    · cases h
      exact ⟨[], rfl, .nil⟩
    · obtain ⟨⟨c, u⟩, he, h⟩ := bind_eq_ok.mp h
      obtain ⟨⟨s, _⟩, hs, h⟩ := bind_eq_ok.mp h
      cases h
      obtain ⟨t, rfl, hspells⟩ := ih hs
      obtain ⟨hs, high, hhigh, ⟨ls, low, hlow, hc, rfl⟩ | ⟨hc, rfl⟩⟩ := numericEscape_eq_ok he
      · exact ⟨_, by simp, .pair hhigh hlow hc hspells⟩
      · exact ⟨_, by simp, .single hhigh hc hspells⟩
    · split at h
      · rename_i he
        obtain ⟨⟨s, _⟩, hs, h⟩ := bind_eq_ok.mp h
        cases h
        obtain ⟨t, rfl, hspells⟩ := ih hs
        exact ⟨_, rfl, .short he hspells⟩
      · cases h
    · rename_i c v hmark _ _
      split at h
      · cases h
      · rename_i hplain
        obtain ⟨hslash, hc⟩ := not_or.mp hplain
        obtain ⟨⟨s, _⟩, hs, h⟩ := bind_eq_ok.mp h
        cases h
        obtain ⟨t, rfl, hspells⟩ := ih hs
        exact ⟨_, rfl, .plain hmark hslash (Nat.le_of_not_lt hc) hspells⟩
    · cases h

theorem readString_eq_ok {k : String} (h : readString cs = .ok (k, r)) :
    ∃ t s, cs = t ++ '"' :: r ∧ Spells t s ∧ k = String.ofList s := by
  obtain ⟨⟨s, _⟩, hs, h⟩ := bind_eq_ok.mp h
  cases h
  obtain ⟨t, ht, hspells⟩ := readChars_eq_ok hs
  exact ⟨t, s, ht, hspells, rfl⟩

/-- A string that cannot be read is malformed, or it strays. -/
theorem readChars_eq_error {e : ReadError} (h : readChars fuel cs = .error e) :
    e = .malformed ∨ e = .loneSurrogate ∧ Strays cs := by
  induction fuel generalizing cs with
  | zero =>
    cases h
    exact .inl rfl
  | succ fuel ih =>
    -- a string that fails behind one of its characters fails with it
    have hrest {c : Char} {w u : List Char} (hw : ∀ {t s}, Spells t s → Spells (w ++ t) (c :: s))
        (h : readChars fuel u >>= (fun p => pure (c :: p.1, p.2)) = .error e) :
        e = .malformed ∨ e = .loneSurrogate ∧ Strays (w ++ u) := by
      rcases bind_eq_error.mp h with h | ⟨_, -, ⟨⟩⟩
      refine (ih h).imp_right fun ⟨he, t, s, l, hspells, hlone, hu⟩ => ⟨he, ?_⟩
      rw [hu, ← List.append_assoc]
      exact ⟨_, _, l, hw hspells, hlone, rfl⟩
    unfold readChars at h
    split at h
    · cases h
    · rename_i u
      rcases bind_eq_error.mp h with h | ⟨⟨c, v⟩, he, hread⟩
      · exact (numericEscape_eq_error h).imp_right fun ⟨he, hlone⟩ =>
          ⟨he, [], [], u, .nil, hlone, rfl⟩
      · obtain ⟨hs, high, hhigh, ⟨ls, low, hlow, hc, rfl⟩ | ⟨hc, rfl⟩⟩ := numericEscape_eq_ok he
        · have hpair := hrest (w := '\\' :: 'u' :: (hs ++ '\\' :: 'u' :: ls)) (fun hspells => by
            simpa using Spells.pair hhigh hlow hc hspells) hread
          simpa using hpair
        · exact hrest (w := '\\' :: 'u' :: hs) (fun hspells => .single hhigh hc hspells) hread
    · split at h
      · rename_i he
        exact hrest (w := ['\\', _]) (fun hspells => .short he hspells) h
      · cases h
        exact .inl rfl
    · rename_i c v hmark _ _
      split at h
      · cases h
        exact .inl rfl
      · rename_i hplain
        obtain ⟨hslash, hc⟩ := not_or.mp hplain
        exact hrest (w := [c]) (fun hspells =>
          .plain hmark hslash (Nat.le_of_not_lt hc) hspells) h
    · cases h
      exact .inl rfl

theorem readString_eq_error {e : ReadError} (h : readString cs = .error e) :
    e = .malformed ∨ e = .loneSurrogate ∧ Strays cs := by
  rcases bind_eq_error.mp h with h | ⟨_, -, ⟨⟩⟩
  exact readChars_eq_error h

/-! ## Strings as they are written -/

theorem isCode_hexDigits (hn : n < 16 ^ 4) : IsCode (hexDigits 4 n) n :=
  ⟨Text.length_hexDigits 4 n, by rw [Text.hexNumber_hexDigits, Nat.mod_eq_of_lt hn]⟩

theorem scalar_toNat (c : Char) : scalar? c.toNat = some c := by
  have hvalid : c.toNat.isValidChar := c.valid
  rw [scalar?, if_pos hvalid, Char.ofNat_toNat]

theorem Spells.hexDigits (hc : c.toNat < 16 ^ 4) (h : Spells t s) :
    Spells ('\\' :: 'u' :: (hexDigits 4 c.toNat ++ t)) (c :: s) :=
  .single (isCode_hexDigits hc) (scalar_toNat c) h

theorem Spells.jsonEscape (c : Char) (h : Spells t s) : Spells (jsonEscape c ++ t) (c :: s) := by
  unfold Text.jsonEscape
  split
  · rename_i hc
    rcases hc with rfl | rfl <;> exact .short rfl h
  · rename_i hc
    obtain ⟨hmark, hslash⟩ := not_or.mp hc
    -- the five characters with a short escape of their own
    iterate 5
      split
      · subst c
        exact .short rfl h
    split
    · exact .hexDigits (by omega) h
    · exact .plain hmark hslash (by omega) h

theorem spells_flatMap (cs : List Char) : Spells (cs.flatMap jsonEscape) cs := by
  induction cs with
  | nil => exact .nil
  | cons c cs ih =>
    rw [List.flatMap_cons]
    exact ih.jsonEscape c

end RuleEngine.Json
