import RuleEngine.Proofs.Json.Completeness

/-!
# What is read is what the grammar allows

A part that is read is written by the text up to where reading stops, and a number or a string that
is refused without being malformed stands at a place to which the text before it leads. One
induction on the fuel goes through values, items and entries together.

* `read_eq_ok`: a text is read as a value exactly if it denotes the value.
* `read_eq_stopped`: it is refused for a number or a string exactly if it comes upon one that cannot
  be read.
* `read_eq_malformed`: every other text is malformed.
-/

namespace RuleEngine.Json

variable {fuel k : Nat} {cs r : List Char} {v : Value} {xs : List Value}
  {es : List (Value × Value)} {negative : Bool}

theorem exists_skip (cs : List Char) : ∃ ws, IsSpace ws ∧ cs = ws ++ skip cs :=
  ⟨cs.takeWhile isSpace, List.all_eq_true.mp List.all_takeWhile,
    List.takeWhile_append_dropWhile.symm⟩

/-! ## Tokens -/

theorem word_eq_some {w : String} (h : word? w cs = some r) : cs = w.toList ++ r := by
  unfold word? at h
  split at h
  · rename_i hprefix
    obtain ⟨u, rfl⟩ := List.isPrefixOf_iff_prefix.mp hprefix
    cases h
    rw [← String.length_toList, List.drop_left]
  · cases h

theorem readPlain_eq_ok (h : readPlain cs = .ok (v, r)) : ∃ t, cs = t ++ r ∧ IsToken t v := by
  have hnumber (negative : Bool) {u : List Char} (h : readNumber negative u = .ok (v, r)) :
      ∃ t, signOf negative ++ u = t ++ r ∧ IsToken t v := by
    obtain ⟨t, rfl, ht⟩ := readNumber_eq_ok h
    exact ⟨signOf negative ++ t, (List.append_assoc _ _ _).symm, .number ht⟩
  unfold readPlain at h
  split at h
  · rename_i found hfound
    obtain ⟨⟨w, x⟩, hw, hv⟩ := List.exists_of_findSome?_eq_some hfound
    obtain ⟨u, hword, rfl⟩ := Option.map_eq_some_iff.mp hv
    cases h
    exact ⟨w.toList, word_eq_some hword, .word hw⟩
  · split at h
    · exact hnumber true h
    · exact hnumber false h

/-- A word or a number that cannot be read is malformed or too long. -/
theorem readPlain_eq_error {e : ReadError} (h : readPlain cs = .error e) (he : e ≠ .malformed) :
    IsSnag .value cs e := by
  have hnumber (negative : Bool) {u : List Char} (h : readNumber negative u = .error e) :
      IsSnag .value (signOf negative ++ u) e := by
    cases e with
    | malformed => exact absurd rfl he
    | longInteger k =>
      obtain ⟨ds, r, rfl, hds⟩ := readNumber_eq_overlong h
      exact .number ⟨negative, ds, r, rfl, hds⟩
    | loneSurrogate => exact absurd h readNumber_ne_loneSurrogate
  unfold readPlain at h
  split at h
  · cases h
  · split at h
    · exact hnumber true h
    · exact hnumber false h

/-! ## Parts that are read -/

/-- What is read with this fuel is written by the text up to the rest. -/
structure ReadsWritten (fuel : Nat) : Prop where
  value {cs r : List Char} {v : Value} :
    readValue fuel cs = .ok (v, r) → ∃ t, cs = t ++ r ∧ Writes t (.value v)
  items {cs r : List Char} {xs : List Value} :
    readItems fuel cs = .ok (xs, r) → ∃ t, cs = t ++ ']' :: r ∧ Writes t (.items xs)
  entries {cs r : List Char} {es : List (Value × Value)} :
    readEntries fuel cs = .ok (es, r) → ∃ t, cs = t ++ '\x7d' :: r ∧ Writes t (.entries es)

theorem readValue_eq_ok (ih : ReadsWritten fuel) (h : readValue (fuel + 1) cs = .ok (v, r)) :
    ∃ t, cs = t ++ r ∧ Writes t (.value v) := by
  unfold readValue at h
  split at h
  · obtain ⟨⟨s, _⟩, hs, h⟩ := bind_eq_ok.mp h
    cases h
    obtain ⟨t, s, rfl, hspells, rfl⟩ := readString_eq_ok hs
    exact ⟨_, by simp, .token (.string hspells)⟩
  · rename_i u
    obtain ⟨ws, hws, hu⟩ := exists_skip u
    split at h
    · rename_i heq
      cases h
      rw [hu, heq]
      exact ⟨_, by simp, .emptyArray hws⟩
    · obtain ⟨⟨xs, _⟩, hxs, h⟩ := bind_eq_ok.mp h
      cases h
      obtain ⟨t, ht, hwrites⟩ := ih.items hxs
      rw [hu, ht]
      exact ⟨_, by simp, .array hws hwrites⟩
  · rename_i u
    obtain ⟨ws, hws, hu⟩ := exists_skip u
    split at h
    · rename_i heq
      cases h
      rw [hu, heq]
      exact ⟨_, by simp, .emptyObject hws⟩
    · obtain ⟨⟨es, _⟩, hes, h⟩ := bind_eq_ok.mp h
      cases h
      obtain ⟨t, ht, hwrites⟩ := ih.entries hes
      rw [hu, ht]
      exact ⟨_, by simp, .object hws hwrites⟩
  · obtain ⟨t, ht, htoken⟩ := readPlain_eq_ok h
    exact ⟨t, ht, .token htoken⟩

theorem readItems_eq_ok (ih : ReadsWritten fuel) (h : readItems (fuel + 1) cs = .ok (xs, r)) :
    ∃ t, cs = t ++ ']' :: r ∧ Writes t (.items xs) := by
  unfold readItems at h
  obtain ⟨⟨x, u⟩, hx, h⟩ := bind_eq_ok.mp h
  obtain ⟨t, ht, hwrites⟩ := ih.value hx
  obtain ⟨ws, hws, hu⟩ := exists_skip u
  dsimp only at h
  split at h
  · rename_i heq
    cases h
    rw [ht, hu, heq]
    exact ⟨_, by simp, .lastItem hwrites hws⟩
  · rename_i w heq
    obtain ⟨⟨ys, _⟩, hys, h⟩ := bind_eq_ok.mp h
    cases h
    obtain ⟨ws', hws', hw⟩ := exists_skip w
    obtain ⟨t', ht', hrest⟩ := ih.items hys
    rw [ht, hu, heq, hw, ht']
    exact ⟨_, by simp, .item hwrites ⟨ws, ws', hws, hws', rfl⟩ hrest⟩
  · cases h

theorem readKey_eq_ok {k : String} (h : readKey cs = .ok (k, r)) :
    ∃ t, cs = t ++ r ∧ IsKey t k := by
  unfold readKey at h
  split at h
  · obtain ⟨⟨s, u⟩, hs, h⟩ := bind_eq_ok.mp h
    obtain ⟨t, s, rfl, hspells, rfl⟩ := readString_eq_ok hs
    obtain ⟨ws, hws, hu⟩ := exists_skip u
    dsimp only at h
    split at h
    · rename_i w heq
      cases h
      obtain ⟨ws', hws', hw⟩ := exists_skip w
      refine ⟨_, ?_, t, s, ws, ws', hspells, rfl, hws, hws', rfl⟩
      rw [hu, heq]
      simp [← hw]
    · cases h
  · cases h

theorem readEntries_eq_ok (ih : ReadsWritten fuel) (h : readEntries (fuel + 1) cs = .ok (es, r)) :
    ∃ t, cs = t ++ '\x7d' :: r ∧ Writes t (.entries es) := by
  unfold readEntries at h
  obtain ⟨⟨k, m⟩, hk, h⟩ := bind_eq_ok.mp h
  obtain ⟨⟨x, u⟩, hx, h⟩ := bind_eq_ok.mp h
  obtain ⟨kt, hkt, hkey⟩ := readKey_eq_ok hk
  obtain ⟨t, ht, hwrites⟩ := ih.value hx
  obtain ⟨ws, hws, hu⟩ := exists_skip u
  dsimp only at h ht
  split at h
  · rename_i heq
    cases h
    rw [hkt, ht, hu, heq]
    exact ⟨_, by simp, .lastEntry hkey hwrites hws⟩
  · rename_i w heq
    obtain ⟨⟨fs, _⟩, hfs, h⟩ := bind_eq_ok.mp h
    cases h
    obtain ⟨ws', hws', hw⟩ := exists_skip w
    obtain ⟨t', ht', hrest⟩ := ih.entries hfs
    rw [hkt, ht, hu, heq, hw, ht']
    exact ⟨_, by simp, .entry hkey hwrites ⟨ws, ws', hws, hws', rfl⟩ hrest⟩
  · cases h

theorem reads_written (fuel : Nat) : ReadsWritten fuel := by
  induction fuel with
  | zero => exact ⟨nofun, nofun, nofun⟩
  | succ fuel ih => exact ⟨readValue_eq_ok ih, readItems_eq_ok ih, readEntries_eq_ok ih⟩

/-! ## Parts that are refused -/

/-- What is refused with this fuel, but is not malformed, leads to something that cannot be read. -/
structure RefusesReached (fuel : Nat) : Prop where
  value {cs : List Char} {e : ReadError} :
    readValue fuel cs = .error e → e ≠ .malformed → Reaches .value cs e
  items {cs : List Char} {e : ReadError} :
    readItems fuel cs = .error e → e ≠ .malformed → Reaches .items cs e
  entries {cs : List Char} {e : ReadError} :
    readEntries fuel cs = .error e → e ≠ .malformed → Reaches .entries cs e

variable {e : ReadError} {place : Place} {ws t : List Char}

theorem IsSnag.reaches (h : IsSnag place t e) : Reaches place t e :=
  ⟨place, 0, [], t, .here, h, rfl⟩

theorem Reaches.array (h : Reaches .items t e) (hws : IsSpace ws) :
    Reaches .value ('[' :: (ws ++ t)) e := by
  obtain ⟨goal, depth, lead, u, hlead, hu, rfl⟩ := h
  exact ⟨goal, _, _, u, .array hws hlead, hu, by simp⟩

theorem Reaches.object (h : Reaches .entries t e) (hws : IsSpace ws) :
    Reaches .value ('\x7b' :: (ws ++ t)) e := by
  obtain ⟨goal, depth, lead, u, hlead, hu, rfl⟩ := h
  exact ⟨goal, _, _, u, .object hws hlead, hu, by simp⟩

theorem readKey_eq_error (h : readKey cs = .error e) (he : e ≠ .malformed) :
    IsSnag .entries cs e := by
  unfold readKey at h
  split at h
  · rcases bind_eq_error.mp h with h | ⟨_, -, h⟩
    · obtain rfl | ⟨rfl, hstrays⟩ := readString_eq_error h
      · exact absurd rfl he
      · exact .key hstrays
    · dsimp only at h
      split at h <;> cases h
      exact absurd rfl he
  · cases h
    exact absurd rfl he

theorem readValue_reaches (ih : RefusesReached fuel) (h : readValue (fuel + 1) cs = .error e)
    (he : e ≠ .malformed) : Reaches .value cs e := by
  unfold readValue at h
  split at h
  · rcases bind_eq_error.mp h with h | ⟨_, -, ⟨⟩⟩
    obtain rfl | ⟨rfl, hstrays⟩ := readString_eq_error h
    · exact absurd rfl he
    · exact (IsSnag.string hstrays).reaches
  · rename_i u
    obtain ⟨ws, hws, hu⟩ := exists_skip u
    split at h
    · cases h
    · rcases bind_eq_error.mp h with h | ⟨_, -, ⟨⟩⟩
      rw [hu]
      exact (ih.items h he).array hws
  · rename_i u
    obtain ⟨ws, hws, hu⟩ := exists_skip u
    split at h
    · cases h
    · rcases bind_eq_error.mp h with h | ⟨_, -, ⟨⟩⟩
      rw [hu]
      exact (ih.entries h he).object hws
  · exact (readPlain_eq_error h he).reaches

theorem readItems_reaches (ih : RefusesReached fuel) (h : readItems (fuel + 1) cs = .error e)
    (he : e ≠ .malformed) : Reaches .items cs e := by
  unfold readItems at h
  rcases bind_eq_error.mp h with h | ⟨⟨x, u⟩, hx, h⟩
  · obtain ⟨goal, depth, lead, u, hlead, hu, rfl⟩ := ih.value h he
    exact ⟨goal, depth, lead, u, .item hlead, hu, rfl⟩
  · obtain ⟨t, ht, hwrites⟩ := (reads_written fuel).value hx
    obtain ⟨ws, hws, hu⟩ := exists_skip u
    dsimp only at h
    split at h
    · cases h
    · rename_i w heq
      obtain ⟨ws', hws', hw⟩ := exists_skip w
      rcases bind_eq_error.mp h with h | ⟨_, -, ⟨⟩⟩
      obtain ⟨goal, depth, lead, v, hlead, hv, hrest⟩ := ih.items h he
      rw [ht, hu, heq, hw, hrest]
      have hcomma : IsComma (ws ++ ',' :: ws') := ⟨ws, ws', hws, hws', rfl⟩
      exact ⟨goal, depth, _, v, .nextItem hwrites hcomma hlead, hv, by simp⟩
    · cases h
      exact absurd rfl he

theorem readEntries_reaches (ih : RefusesReached fuel) (h : readEntries (fuel + 1) cs = .error e)
    (he : e ≠ .malformed) : Reaches .entries cs e := by
  unfold readEntries at h
  rcases bind_eq_error.mp h with h | ⟨⟨key, m⟩, hk, h⟩
  · exact (readKey_eq_error h he).reaches
  obtain ⟨kt, hkt, hkey⟩ := readKey_eq_ok hk
  rcases bind_eq_error.mp h with h | ⟨⟨x, u⟩, hx, h⟩
  · obtain ⟨goal, depth, lead, u, hlead, hu, hm⟩ := ih.value h he
    rw [hkt, hm]
    exact ⟨goal, depth, _, u, .entry hkey hlead, hu, by simp⟩
  · obtain ⟨t, ht, hwrites⟩ := (reads_written fuel).value hx
    obtain ⟨ws, hws, hu⟩ := exists_skip u
    dsimp only at h ht
    split at h
    · cases h
    · rename_i w heq
      obtain ⟨ws', hws', hw⟩ := exists_skip w
      rcases bind_eq_error.mp h with h | ⟨_, -, ⟨⟩⟩
      obtain ⟨goal, depth, lead, v, hlead, hv, hrest⟩ := ih.entries h he
      rw [hkt, ht, hu, heq, hw, hrest]
      have hcomma : IsComma (ws ++ ',' :: ws') := ⟨ws, ws', hws, hws', rfl⟩
      exact ⟨goal, depth, _, v, .nextEntry hkey hwrites hcomma hlead, hv, by simp⟩
    · cases h
      exact absurd rfl he

theorem refuses_reached (fuel : Nat) : RefusesReached fuel := by
  induction fuel with
  | zero =>
    have hnone {α : Type} {e : ReadError} (h : (.error .malformed : Except ReadError α) = .error e)
        (he : e ≠ .malformed) : False := he (Except.error.inj h).symm
    exact ⟨fun h he => (hnone h he).elim, fun h he => (hnone h he).elim,
      fun h he => (hnone h he).elim⟩
  | succ fuel ih => exact ⟨readValue_reaches ih, readItems_reaches ih, readEntries_reaches ih⟩

/-! ## Texts -/

variable {s : String}

theorem read_eq_ok : read s = .ok v ↔ Denotes s.toList v := by
  refine ⟨fun h => ?_, Denotes.read_eq⟩
  obtain ⟨r, hread, hr⟩ := read_eq_ok_iff.mp h
  obtain ⟨ws, hws, hs⟩ := exists_skip s.toList
  obtain ⟨ws', hws', hrest⟩ := exists_skip r
  obtain ⟨t, ht, hwrites⟩ := (reads_written _).value hread
  rw [hr, List.append_nil] at hrest
  rw [hs, ht, hrest]
  exact ⟨ws, t, ws', hws, hwrites, hws', rfl⟩

theorem read_eq_stopped (he : e ≠ .malformed) : read s = .error e ↔ Stops s.toList e := by
  refine ⟨fun h => ?_, Stops.read_eq⟩
  obtain ⟨ws, hws, hs⟩ := exists_skip s.toList
  exact ⟨ws, _, hws, (refuses_reached _).value ((read_eq_error_iff he).mp h) he, hs⟩

theorem read_eq_malformed : read s = .error .malformed ↔
    (¬ ∃ v, Denotes s.toList v) ∧ ¬ ∃ e, Stops s.toList e := by
  constructor
  · intro h
    refine ⟨?_, ?_⟩
    · rintro ⟨v, hv⟩
      cases hv.read_eq.symm.trans h
    · rintro ⟨e, he⟩
      obtain rfl := Except.error.inj (he.read_eq.symm.trans h)
      obtain ⟨_, _, -, ⟨_, _, _, _, -, ⟨⟩, -⟩, -⟩ := he
  · intro ⟨hdenotes, hstops⟩
    cases h : read s with
    | ok v => exact absurd ⟨v, read_eq_ok.mp h⟩ hdenotes
    | error e =>
      by_cases he : e = .malformed
      · rw [he]
      · exact absurd ⟨e, (read_eq_stopped he).mp h⟩ hstops

end RuleEngine.Json
