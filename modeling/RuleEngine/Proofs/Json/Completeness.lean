import RuleEngine.Proofs.Json.Grammar

/-!
# What the grammar allows is read

A part of a text is read as what it stands for, with twice as much fuel as it has characters: a
bracket takes one step for the value it opens and one for what is in it. Where a text leads to a
place at which reading fails, it fails as a whole.

* `Denotes.read_eq`: a text that denotes a value is read as this value.
* `Stops.read_eq`: a text that comes upon something that cannot be read is refused for it.
-/

namespace RuleEngine.Json

variable {fuel k : Nat} {c : Char} {cs r t u ws : List Char} {v : Value} {p : Part} {e : ReadError}

/-! ## White space -/

theorem skip_append (h : IsSpace ws) (r : List Char) : skip (ws ++ r) = skip r :=
  List.dropWhile_append_of_pos h

theorem skip_cons (h : isSpace c = false) : skip (c :: cs) = c :: cs := by
  simp [skip, h]

/-- A character that a part begins with: no space, and no end of an array or an object. -/
def IsFirst (c : Char) : Prop := isSpace c = false ∧ c ≠ ']' ∧ c ≠ '\x7d'

instance (c : Char) : Decidable (IsFirst c) := inferInstanceAs (Decidable (_ ∧ _))

/-- The text begins as a part does. -/
def Begins (t : List Char) : Prop := ∃ c cs, t = c :: cs ∧ IsFirst c

theorem Begins.append (h : Begins t) (r : List Char) : Begins (t ++ r) := by
  obtain ⟨c, cs, rfl, hc⟩ := h
  exact ⟨c, cs ++ r, rfl, hc⟩

theorem Begins.length_pos (h : Begins t) : 0 < t.length := by
  obtain ⟨c, cs, rfl, -⟩ := h
  exact Nat.succ_pos _

theorem Begins.skip_eq (h : Begins t) : skip t = t := by
  obtain ⟨c, cs, rfl, hc⟩ := h
  exact skip_cons hc.1

theorem Follows.of_space (hws : IsSpace ws) (hr : Follows r) : Follows (ws ++ r) := by
  cases ws with
  | nil => exact hr
  | cons c ws =>
    rintro _ ⟨⟩
    exact .inl (hws c List.mem_cons_self)

theorem follows_cons (h : c = ',' ∨ c = ']' ∨ c = '\x7d') : Follows (c :: r) := by
  rintro _ ⟨⟩
  exact .inr h

theorem IsComma.follows (h : IsComma t) (r : List Char) : Follows (t ++ r) := by
  obtain ⟨ws, ws', hws, -, rfl⟩ := h
  rw [List.append_assoc]
  exact .of_space hws (follows_cons (.inl rfl))

theorem IsComma.exists_skip (h : IsComma t) (hu : Begins u) :
    ∃ r, skip (t ++ u) = ',' :: r ∧ skip r = u := by
  obtain ⟨ws, ws', hws, hws', rfl⟩ := h
  refine ⟨ws' ++ u, ?_, ?_⟩
  · rw [List.append_assoc, skip_append hws]
    exact skip_cons (by decide)
  · rw [skip_append hws', hu.skip_eq]

/-! ## Tokens -/

/-- A character that only a word or a number begins with. -/
def IsPlainFirst (c : Char) : Prop := IsFirst c ∧ c ≠ '"' ∧ c ≠ '[' ∧ c ≠ '\x7b'

instance (c : Char) : Decidable (IsPlainFirst c) := inferInstanceAs (Decidable (_ ∧ _))

theorem IsPlainFirst.readValue_eq (h : IsPlainFirst c) (fuel : Nat) (cs : List Char) :
    readValue (fuel + 1) (c :: cs) = readPlain (c :: cs) := by
  obtain ⟨-, hquote, hbracket, hbrace⟩ := h
  unfold readValue
  split
  · rename_i heq
    exact absurd (List.cons.inj heq).1 hquote
  · rename_i heq
    exact absurd (List.cons.inj heq).1 hbracket
  · rename_i heq
    exact absurd (List.cons.inj heq).1 hbrace
  · rfl

theorem isPlainFirst_digit (h : c.isDigit = true) : IsPlainFirst c := by
  have hne (d : Char) (hd : d.isDigit = false) : c ≠ d := by
    rintro rfl
    exact Bool.false_ne_true (hd.symm.trans h)
  refine ⟨⟨?_, hne ']' rfl, hne '\x7d' rfl⟩, hne '"' rfl, hne '[' rfl, hne '\x7b' rfl⟩
  simp [isSpace, hne]

theorem exists_isPlainFirst (negative : Bool) (h : IsDigits cs) (r : List Char) :
    ∃ c ds, signOf negative ++ (cs ++ r) = c :: ds ∧ IsPlainFirst c := by
  obtain ⟨c, cs, rfl⟩ := List.exists_cons_of_ne_nil h.1
  cases negative with
  | false => exact ⟨c, _, rfl, isPlainFirst_digit (h.2 c List.mem_cons_self)⟩
  | true => exact ⟨'-', _, rfl, by decide⟩

theorem readValue_number (negative : Bool) (h : IsDigits cs) (fuel : Nat) (r : List Char) :
    readValue (fuel + 1) (signOf negative ++ (cs ++ r)) = readNumber negative (cs ++ r) := by
  obtain ⟨c, ds, heq, hc⟩ := exists_isPlainFirst negative h r
  rw [heq, hc.readValue_eq, ← heq, readPlain_signed negative h]

theorem IsNumber.exists_digits {negative : Bool} (h : IsNumber negative t v) :
    ∃ ds r, IsDigits ds ∧ t = ds ++ r := by
  cases h with
  | whole hw _ => exact ⟨_, [], hw.isDigits, (List.append_nil _).symm⟩
  | float hw _ _ _ => exact ⟨_, _, hw.isDigits, rfl⟩

theorem IsToken.begins (h : IsToken t v) : Begins t := by
  cases h with
  | word h =>
    simp only [words, List.mem_cons, Prod.mk.injEq, List.not_mem_nil, or_false] at h
    obtain ⟨rfl, -⟩ | ⟨rfl, -⟩ | ⟨rfl, -⟩ | ⟨rfl, -⟩ | ⟨rfl, -⟩ | ⟨rfl, -⟩ := h
    all_goals exact ⟨_, _, rfl, by decide⟩
  | @number negative _ _ h =>
    obtain ⟨ds, r, hd, rfl⟩ := h.exists_digits
    obtain ⟨c, cs, heq, hc⟩ := exists_isPlainFirst negative hd r
    exact ⟨c, cs, heq, hc.1⟩
  | string => exact ⟨_, _, rfl, by decide⟩

theorem IsToken.readValue_eq (h : IsToken t v) (hr : Follows r) (fuel : Nat) :
    readValue (fuel + 1) (t ++ r) = .ok (v, r) := by
  cases h with
  | word h =>
    simp only [words, List.mem_cons, Prod.mk.injEq, List.not_mem_nil, or_false] at h
    obtain ⟨rfl, rfl⟩ | ⟨rfl, rfl⟩ | ⟨rfl, rfl⟩ | ⟨rfl, rfl⟩ | ⟨rfl, rfl⟩ | ⟨rfl, rfl⟩ := h
    all_goals rfl
  | @number negative t v h =>
    obtain ⟨ds, u, hd, rfl⟩ := h.exists_digits
    rw [List.append_assoc, List.append_assoc, readValue_number negative hd, ← List.append_assoc,
      h.readNumber_eq hr]
  | string h =>
    rw [List.cons_append, List.append_assoc, List.singleton_append, readValue, h.readString_eq]
    rfl

/-! ## Steps of the reader -/

theorem readValue_array (hws : IsSpace ws) (hu : Begins u) (fuel : Nat) :
    readValue (fuel + 1) ('[' :: (ws ++ u)) = do
      let (xs, r) ← readItems fuel u
      return (.list xs, r) := by
  obtain ⟨c, cs, rfl, hc⟩ := hu
  rw [readValue, skip_append hws, skip_cons hc.1]
  split
  · rename_i heq
    exact absurd (List.cons.inj heq).1 hc.2.1
  · rfl

theorem readValue_object (hws : IsSpace ws) (hu : Begins u) (fuel : Nat) :
    readValue (fuel + 1) ('\x7b' :: (ws ++ u)) = do
      let (es, r) ← readEntries fuel u
      return (.map (Assoc.update [] es), r) := by
  obtain ⟨c, cs, rfl, hc⟩ := hu
  rw [readValue, skip_append hws, skip_cons hc.1]
  split
  · rename_i heq
    exact absurd (List.cons.inj heq).1 hc.2.2
  · rfl

theorem readItems_last (h : readValue fuel cs = .ok (v, ws ++ ']' :: r)) (hws : IsSpace ws) :
    readItems (fuel + 1) cs = .ok ([v], r) := by
  have hskip : skip (ws ++ ']' :: r) = ']' :: r := by
    rw [skip_append hws]
    exact skip_cons (by decide)
  simp only [readItems, h, bind, Except.bind, hskip]
  rfl

theorem readItems_next (h : readValue fuel cs = .ok (v, t ++ u)) (ht : IsComma t) (hu : Begins u) :
    readItems (fuel + 1) cs = do
      let (xs, r) ← readItems fuel u
      return (v :: xs, r) := by
  obtain ⟨r, hskip, hrest⟩ := ht.exists_skip hu
  simp only [readItems, h, bind, Except.bind, hskip, hrest]

theorem readItems_error (h : readValue fuel cs = .error e) :
    readItems (fuel + 1) cs = .error e := by
  rw [readItems, h]
  rfl

theorem IsKey.readKey_eq {key : String} (h : IsKey t key) (hu : Begins u) :
    readKey (t ++ u) = .ok (key, u) := by
  obtain ⟨k, s, ws, ws', hk, rfl, hws, hws', rfl⟩ := h
  have hcolon : skip (ws ++ ':' :: (ws' ++ u)) = ':' :: (ws' ++ u) := by
    rw [skip_append hws]
    exact skip_cons (by decide)
  have hvalue : skip (ws' ++ u) = u := by rw [skip_append hws', hu.skip_eq]
  simp only [List.cons_append, List.append_assoc, readKey, hk.readString_eq, bind, Except.bind,
    hcolon, hvalue]
  rfl

section Entries

variable {key : String} (hk : IsKey t key) (hu : Begins u)

include hk hu

theorem readEntries_last (h : readValue fuel u = .ok (v, ws ++ '\x7d' :: r)) (hws : IsSpace ws) :
    readEntries (fuel + 1) (t ++ u) = .ok ([(.text key, v)], r) := by
  have hskip : skip (ws ++ '\x7d' :: r) = '\x7d' :: r := by
    rw [skip_append hws]
    exact skip_cons (by decide)
  simp only [readEntries, hk.readKey_eq hu, h, bind, Except.bind, hskip]
  rfl

theorem readEntries_next {ct w : List Char} (h : readValue fuel u = .ok (v, ct ++ w))
    (hct : IsComma ct) (hw : Begins w) : readEntries (fuel + 1) (t ++ u) = do
      let (es, r) ← readEntries fuel w
      return ((.text key, v) :: es, r) := by
  obtain ⟨r, hskip, hrest⟩ := hct.exists_skip hw
  simp only [readEntries, hk.readKey_eq hu, h, bind, Except.bind, hskip, hrest]

theorem readEntries_error (h : readValue fuel u = .error e) :
    readEntries (fuel + 1) (t ++ u) = .error e := by
  rw [readEntries, hk.readKey_eq hu]
  simp only [bind, Except.bind, h]

end Entries

/-! ## Parts -/

theorem IsKey.begins {key : String} (h : IsKey t key) : Begins t := by
  obtain ⟨_, _, _, _, -, -, -, -, rfl⟩ := h
  exact ⟨_, _, rfl, by decide⟩

theorem Writes.begins (h : Writes t p) : Begins t := by
  induction h with
  | token h => exact h.begins
  | emptyArray | array | emptyObject | object => exact ⟨_, _, rfl, by decide⟩
  | lastItem _ _ ih => exact ih.append _
  | item _ _ _ ih => exact ih.append _
  | lastEntry hk | entry hk => exact hk.begins.append _

/-- With enough fuel the text is read as the part, up to what ends it. -/
def IsReadAs (t : List Char) : Part → Prop
  | .value v => ∀ fuel r, 2 * t.length ≤ fuel → Follows r → readValue fuel (t ++ r) = .ok (v, r)
  | .items xs => ∀ fuel r, 2 * t.length < fuel → readItems fuel (t ++ ']' :: r) = .ok (xs, r)
  | .entries es =>
    ∀ fuel r, 2 * t.length < fuel → readEntries fuel (t ++ '\x7d' :: r) = .ok (es, r)

theorem Writes.isReadAs (h : Writes t p) : IsReadAs t p := by
  induction h with
  | @token t v h =>
    intro fuel r hfuel hr
    have := h.begins.length_pos
    obtain ⟨fuel, rfl⟩ : ∃ m, fuel = m + 1 := ⟨fuel - 1, by omega⟩
    exact h.readValue_eq hr fuel
  | emptyArray hws =>
    intro fuel r hfuel hr
    simp only [List.length_cons, List.length_append] at hfuel
    obtain ⟨fuel, rfl⟩ : ∃ m, fuel = m + 1 := ⟨fuel - 1, by omega⟩
    rw [List.cons_append, List.append_assoc, readValue, skip_append hws]
    rfl
  | array hws h ih =>
    intro fuel r hfuel hr
    simp only [List.length_cons, List.length_append] at hfuel
    obtain ⟨fuel, rfl⟩ : ∃ m, fuel = m + 1 := ⟨fuel - 1, by omega⟩
    simp only [List.cons_append, List.append_assoc, List.nil_append]
    rw [readValue_array hws (h.begins.append _), ih fuel r (by omega)]
    rfl
  | emptyObject hws =>
    intro fuel r hfuel hr
    simp only [List.length_cons, List.length_append] at hfuel
    obtain ⟨fuel, rfl⟩ : ∃ m, fuel = m + 1 := ⟨fuel - 1, by omega⟩
    rw [List.cons_append, List.append_assoc, readValue, skip_append hws]
    rfl
  | object hws h ih =>
    intro fuel r hfuel hr
    simp only [List.length_cons, List.length_append] at hfuel
    obtain ⟨fuel, rfl⟩ : ∃ m, fuel = m + 1 := ⟨fuel - 1, by omega⟩
    simp only [List.cons_append, List.append_assoc, List.nil_append]
    rw [readValue_object hws (h.begins.append _), ih fuel r (by omega)]
    rfl
  | lastItem h hws ih =>
    intro fuel r hfuel
    simp only [List.length_append] at hfuel
    obtain ⟨fuel, rfl⟩ : ∃ m, fuel = m + 1 := ⟨fuel - 1, by omega⟩
    rw [List.append_assoc]
    have hend : Follows (']' :: r) := follows_cons (.inr (.inl rfl))
    exact readItems_last (ih fuel _ (by omega) (.of_space hws hend)) hws
  | item h hct hu ih ihu =>
    intro fuel r hfuel
    have := h.begins.length_pos
    simp only [List.length_append] at hfuel
    obtain ⟨fuel, rfl⟩ : ∃ m, fuel = m + 1 := ⟨fuel - 1, by omega⟩
    simp only [List.append_assoc]
    rw [readItems_next (ih fuel _ (by omega) (hct.follows _)) hct (hu.begins.append _),
      ihu fuel r (by omega)]
    rfl
  | lastEntry hk h hws ih =>
    intro fuel r hfuel
    have := hk.begins.length_pos
    simp only [List.length_append] at hfuel
    obtain ⟨fuel, rfl⟩ : ∃ m, fuel = m + 1 := ⟨fuel - 1, by omega⟩
    simp only [List.append_assoc]
    have hend : Follows ('\x7d' :: r) := follows_cons (.inr (.inr rfl))
    exact readEntries_last hk (h.begins.append _) (ih fuel _ (by omega) (.of_space hws hend)) hws
  | entry hk h hct hu ih ihu =>
    intro fuel r hfuel
    have := hk.begins.length_pos
    simp only [List.length_append] at hfuel
    obtain ⟨fuel, rfl⟩ : ∃ m, fuel = m + 1 := ⟨fuel - 1, by omega⟩
    simp only [List.append_assoc]
    rw [readEntries_next hk (h.begins.append _) (ih fuel _ (by omega) (hct.follows _)) hct
      (hu.begins.append _), ihu fuel r (by omega)]
    rfl

/-! ## Texts -/

theorem read_eq_ok_iff {s : String} : read s = .ok v ↔
    ∃ r, readValue (2 * s.toList.length + 1) (skip s.toList) = .ok (v, r) ∧ skip r = [] := by
  simp only [read, bind_eq_ok, Prod.exists]
  constructor
  · rintro ⟨w, r, hread, h⟩
    split at h
    · cases h
      exact ⟨r, hread, List.isEmpty_iff.mp ‹_›⟩
    · cases h
  · rintro ⟨r, hread, hr⟩
    exact ⟨v, r, hread, if_pos (List.isEmpty_iff.mpr hr)⟩

theorem read_eq_error_iff {s : String} (he : e ≠ .malformed) : read s = .error e ↔
    readValue (2 * s.toList.length + 1) (skip s.toList) = .error e := by
  simp only [read, bind_eq_error, Prod.exists]
  constructor
  · rintro (h | ⟨w, r, -, h⟩)
    · exact h
    · split at h <;> cases h
      exact absurd rfl he
  · exact .inl

theorem Denotes.read_eq {s : String} (h : Denotes s.toList v) : read s = .ok v := by
  obtain ⟨ws, u, ws', hws, hu, hws', hs⟩ := h
  have hskip : skip s.toList = u ++ ws' := by
    rw [hs, skip_append hws, (hu.begins.append _).skip_eq]
  have hend : skip ws' = [] := by
    have := skip_append hws' []
    rwa [List.append_nil] at this
  have hfollows : Follows ws' := by
    have := Follows.of_space hws' (r := []) nofun
    rwa [List.append_nil] at this
  refine read_eq_ok_iff.mpr ⟨ws', ?_, hend⟩
  rw [hskip, hs]
  exact hu.isReadAs _ ws' (by simp only [List.length_append]; omega) hfollows

/-! ## Failures -/

/-- With enough fuel, reading from this place fails. -/
def FailsWith (e : ReadError) (cs : List Char) : Place → Prop
  | .value => ∀ fuel, 2 * cs.length ≤ fuel → readValue fuel cs = .error e
  | .items => ∀ fuel, 2 * cs.length < fuel → readItems fuel cs = .error e
  | .entries => ∀ fuel, 2 * cs.length < fuel → readEntries fuel cs = .error e

variable {goal place : Place} {depth : Nat}

theorem Leads.begins (h : Leads goal depth place t) (hu : Begins u) : Begins (t ++ u) := by
  induction h with
  | here => exact hu
  | array | object => exact ⟨_, _, rfl, by decide⟩
  | item _ ih => exact ih
  | nextItem h => exact (h.begins.append _).append _
  | entry hk | nextEntry hk => exact (hk.begins.append _).append _

/-- Reading fails if it leads to a place where it fails. -/
theorem Leads.failsWith (h : Leads goal depth place t) (hu : Begins u)
    (he : FailsWith e u goal) : FailsWith e (t ++ u) place := by
  induction h with
  | here => exact he
  | array hws h ih =>
    intro fuel hfuel
    simp only [List.cons_append, List.append_assoc, List.length_cons, List.length_append] at *
    obtain ⟨fuel, rfl⟩ : ∃ m, fuel = m + 1 := ⟨fuel - 1, by omega⟩
    rw [readValue_array hws (h.begins hu), ih fuel (by simp only [List.length_append]; omega)]
    rfl
  | object hws h ih =>
    intro fuel hfuel
    simp only [List.cons_append, List.append_assoc, List.length_cons, List.length_append] at *
    obtain ⟨fuel, rfl⟩ : ∃ m, fuel = m + 1 := ⟨fuel - 1, by omega⟩
    rw [readValue_object hws (h.begins hu), ih fuel (by simp only [List.length_append]; omega)]
    rfl
  | item h ih =>
    intro fuel hfuel
    obtain ⟨fuel, rfl⟩ : ∃ m, fuel = m + 1 := ⟨fuel - 1, by omega⟩
    exact readItems_error (ih fuel (by omega))
  | nextItem h hct hlead ih =>
    intro fuel hfuel
    have := h.begins.length_pos
    simp only [List.append_assoc, List.length_append] at *
    obtain ⟨fuel, rfl⟩ : ∃ m, fuel = m + 1 := ⟨fuel - 1, by omega⟩
    rw [readItems_next (h.isReadAs fuel _ (by omega) (hct.follows _)) hct (hlead.begins hu),
      ih fuel (by simp only [List.length_append]; omega)]
    rfl
  | entry hk h ih =>
    intro fuel hfuel
    have := hk.begins.length_pos
    simp only [List.append_assoc, List.length_append] at *
    obtain ⟨fuel, rfl⟩ : ∃ m, fuel = m + 1 := ⟨fuel - 1, by omega⟩
    exact readEntries_error hk (h.begins hu) (ih fuel (by simp only [List.length_append]; omega))
  | nextEntry hk h hct hlead ih =>
    intro fuel hfuel
    have := hk.begins.length_pos
    simp only [List.append_assoc, List.length_append] at *
    obtain ⟨fuel, rfl⟩ : ∃ m, fuel = m + 1 := ⟨fuel - 1, by omega⟩
    rw [readEntries_next hk (h.begins.append _)
      (h.isReadAs fuel _ (by omega) (hct.follows _)) hct (hlead.begins hu),
      ih fuel (by simp only [List.length_append]; omega)]
    rfl

theorem IsOverlong.begins (h : IsOverlong t k) : Begins t := by
  obtain ⟨negative, ds, r, rfl, hw, -⟩ := h
  obtain ⟨c, cs, heq, hc⟩ := exists_isPlainFirst negative hw.isDigits r
  exact ⟨c, cs, heq, hc.1⟩

theorem IsOverlong.failsWith (h : IsOverlong t k) : FailsWith (.longInteger k) t .value := by
  have := h.begins.length_pos
  obtain ⟨negative, ds, r, rfl, hw, hlen, rfl, hr⟩ := h
  intro fuel hfuel
  obtain ⟨fuel, rfl⟩ : ∃ m, fuel = m + 1 := ⟨fuel - 1, by omega⟩
  rw [readValue_number negative hw.isDigits, readNumber_whole hw negative hr, if_pos hlen]

theorem IsSnag.begins (h : IsSnag place t e) : Begins t := by
  cases h with
  | number h => exact h.begins
  | string | key => exact ⟨_, _, rfl, by decide⟩

theorem IsSnag.failsWith (h : IsSnag place t e) : FailsWith e t place := by
  cases h with
  | number h => exact h.failsWith
  | string h =>
    intro fuel hfuel
    simp only [List.length_cons] at hfuel
    obtain ⟨fuel, rfl⟩ : ∃ m, fuel = m + 1 := ⟨fuel - 1, by omega⟩
    rw [readValue, h.readString_eq]
    rfl
  | key h =>
    intro fuel hfuel
    obtain ⟨fuel, rfl⟩ : ∃ m, fuel = m + 1 := ⟨fuel - 1, by omega⟩
    rw [readEntries, readKey, h.readString_eq]
    rfl

/-- A text that comes upon something that cannot be read is refused for it. -/
theorem Stops.read_eq {s : String} (h : Stops s.toList e) : read s = .error e := by
  obtain ⟨ws, _, hws, ⟨goal, depth, lead, u, hlead, hu, rfl⟩, hs⟩ := h
  have he : e ≠ .malformed := by
    rintro rfl
    cases hu
  have hskip : skip s.toList = lead ++ u := by
    rw [hs, skip_append hws, (hlead.begins hu.begins).skip_eq]
  rw [read_eq_error_iff he, hskip, hs]
  exact hlead.failsWith hu.begins hu.failsWith _ (by simp only [List.length_append]; omega)

end RuleEngine.Json
