import RuleEngine.Proofs.Memory.Identity

/-!
# Working memory over a history of changes

A memory is what a sequence of changes has made of the empty one; a change that fails leaves it as
it was. The entries stand in the order in which their identities appeared, and every fact is the one
that was written last under its identity (`Tells`): that of the latest upsert since then, or else
that of the assertion that brought the identity in.

The induction is on the sequence, with the last change taken off. What happened earlier is not
changed by it (`upsertedAt_append`, `AppearedAt.append`), and what it does itself is an edit at one
identity, so all other entries are told as before (`Tells.append`).

* `Records.edit`: one change keeps the entries told and in order.
* `after_spec`: what holds after any sequence of changes, and what the next change does and reports.
-/

namespace RuleEngine.Memory

variable {m n : Memory} {c : Change} {cs : List Change} {k k' : FactKey} {r : Option FactKey}
variable {as bs : List (FactKey × Value)}

/-! ## Sequences of changes -/

/-- The memory after a change. A change that fails leaves the memory as it is. -/
def change (m : Memory) (c : Change) : Memory :=
  match c.run m with
  | .ok (n, _) => n
  | .error _ => m

/-- The memory that changes make of the empty one. -/
def after (cs : List Change) : Memory := cs.foldl change empty

/-- The identity was absent before change `i` and has been there ever since. -/
structure AppearedAt (cs : List Change) (k : FactKey) (i : Nat) : Prop where
  lt : i < cs.length
  absent : ¬ (after (cs.take i)).Holds k
  present : ∀ j, i < j → j ≤ cs.length → (after (cs.take j)).Holds k

/-- Change `j` is an upsert of a fact of this identity, and returns. -/
structure UpsertedAt (cs : List Change) (k : FactKey) (j : Nat) (fact : Value) : Prop where
  call : cs[j]? = some (.upsert fact)
  returns : ∃ n r, (Change.upsert fact).run (after (cs.take j)) = .ok (n, r)
  identity : ∃ l, Fact.key fact = .ok l ∧ (k == l) = true

/-- The entry appeared at change `i`, and its fact equals that of the latest upsert since then, or
is that of the assertion `i` if there was no upsert. -/
structure Tells (cs : List Change) (i : Nat) (e : FactKey × Value) : Prop where
  appeared : AppearedAt cs e.1 i
  written : (∃ j fact, i ≤ j ∧ UpsertedAt cs e.1 j fact ∧
      (∀ j' fact', UpsertedAt cs e.1 j' fact' → j' ≤ j) ∧ (e.2 == fact) = true) ∨
    ((∀ j fact, UpsertedAt cs e.1 j fact → j < i) ∧ cs[i]? = some (.assert e.2))

/-- The memory is what the changes say: every entry is told by them, and the entries stand in the
order in which they appeared. -/
structure Records (cs : List Change) (m : Memory) : Prop where
  tells : ∀ e ∈ m.entries, ∃ i, Tells cs i e
  ordered : m.keys.Pairwise fun k l => ∀ i j, AppearedAt cs k i → AppearedAt cs l j → i < j

theorem after_append : after (cs ++ [c]) = (after cs).change c := by
  rw [after, after, List.foldl_append]
  rfl

theorem take_append {i : Nat} (h : i ≤ cs.length) : (cs ++ [c]).take i = cs.take i :=
  List.take_append_of_le_length h

theorem UpsertedAt.lt {j : Nat} {fact : Value} (h : UpsertedAt cs k j fact) : j < cs.length :=
  (List.getElem?_eq_some_iff.mp h.call).1

theorem UpsertedAt.le {j : Nat} {fact : Value} (h : UpsertedAt (cs ++ [c]) k j fact) :
    j ≤ cs.length := by
  have hlt := h.lt
  rw [List.length_append, List.length_singleton] at hlt
  omega

theorem AppearedAt.le {i : Nat} (h : AppearedAt (cs ++ [c]) k i) : i ≤ cs.length := by
  have hlt := h.lt
  rw [List.length_append, List.length_singleton] at hlt
  omega

theorem upsertedAt_append {j : Nat} {fact : Value} (h : j < cs.length) :
    UpsertedAt (cs ++ [c]) k j fact ↔ UpsertedAt cs k j fact := by
  have htake := take_append (c := c) (Nat.le_of_lt h)
  have hget : (cs ++ [c])[j]? = cs[j]? := List.getElem?_append_left h
  constructor
  · intro ⟨hcall, hret, hid⟩
    exact ⟨hget ▸ hcall, htake ▸ hret, hid⟩
  · intro ⟨hcall, hret, hid⟩
    exact ⟨hget ▸ hcall, htake ▸ hret, hid⟩

theorem AppearedAt.append {i : Nat} (h : AppearedAt cs k i)
    (hheld : (after (cs ++ [c])).Holds k) : AppearedAt (cs ++ [c]) k i := by
  refine ⟨?_, ?_, ?_⟩
  · rw [List.length_append]
    exact Nat.lt_add_right _ h.lt
  · rw [take_append (Nat.le_of_lt h.lt)]
    exact h.absent
  · intro j hij hj
    by_cases hjl : j ≤ cs.length
    · rw [take_append hjl]
      exact h.present j hij hjl
    · have hlen : (cs ++ [c]).length ≤ j := by
        simp only [List.length_append, List.length_singleton] at hj ⊢
        omega
      rw [List.take_of_length_le hlen]
      exact hheld

/-- An identity that was held before the last change appeared before it. -/
theorem AppearedAt.of_append {i : Nat} (h : AppearedAt (cs ++ [c]) k i)
    (hheld : (after cs).Holds k) : AppearedAt cs k i := by
  have hne : i ≠ cs.length := by
    intro he
    have habsent := h.absent
    rw [he, List.take_left] at habsent
    exact habsent hheld
  have hlt : i < cs.length := Nat.lt_of_le_of_ne h.le hne
  refine ⟨hlt, ?_, ?_⟩
  · rw [← take_append (c := c) (Nat.le_of_lt hlt)]
    exact h.absent
  · intro j hij hj
    rw [← take_append (c := c) hj]
    refine h.present j hij ?_
    rw [List.length_append]
    omega

/-- An identity that was absent before the last change appeared at it. -/
theorem AppearedAt.eq_length {i : Nat} (h : AppearedAt (cs ++ [c]) k i)
    (hnew : ¬ (after cs).Holds k) : i = cs.length := by
  by_contra hne
  have hlt : i < cs.length := Nat.lt_of_le_of_ne h.le hne
  have hheld := h.present cs.length hlt (by rw [List.length_append]; omega)
  rw [List.take_left] at hheld
  exact hnew hheld

theorem appearedAt_last (hnew : ¬ (after cs).Holds k) (hheld : (after (cs ++ [c])).Holds k) :
    AppearedAt (cs ++ [c]) k cs.length := by
  refine ⟨?_, ?_, ?_⟩
  · rw [List.length_append, List.length_singleton]
    omega
  · rw [List.take_left]
    exact hnew
  · intro j hj hle
    rw [List.take_of_length_le (by simp only [List.length_append, List.length_singleton]; omega)]
    exact hheld

theorem upsertedAt_last {fact : Value} : UpsertedAt (cs ++ [c]) k cs.length fact ↔
    c = .upsert fact ∧ (∃ n r, c.run (after cs) = .ok (n, r)) ∧
      ∃ l, Fact.key fact = .ok l ∧ (k == l) = true := by
  have htake : (cs ++ [c]).take cs.length = cs := List.take_left
  have hlast : (cs ++ [c])[cs.length]? = some c := List.getElem?_concat_length
  constructor
  · intro ⟨hcall, hret, hid⟩
    rw [hlast] at hcall
    rw [htake, ← Option.some.inj hcall] at hret
    exact ⟨Option.some.inj hcall, hret, hid⟩
  · intro ⟨hcall, hret, hid⟩
    exact ⟨by rw [hlast, hcall], by rw [htake, ← hcall]; exact hret, hid⟩

/-! ## One more change -/

variable {i : Nat} {e : FactKey × Value} {fact : Value}

/-- An entry is still told if the last change left it there and did not upsert its identity. -/
theorem Tells.append (h : Tells cs i e) (hheld : (after (cs ++ [c])).Holds e.1)
    (hquiet : ∀ fact, ¬ UpsertedAt (cs ++ [c]) e.1 cs.length fact) : Tells (cs ++ [c]) i e := by
  have hbefore : ∀ j fact, UpsertedAt (cs ++ [c]) e.1 j fact → UpsertedAt cs e.1 j fact := by
    intro j fact hup
    have hne : j ≠ cs.length := by
      intro he
      exact hquiet fact (he ▸ hup)
    exact (upsertedAt_append (Nat.lt_of_le_of_ne hup.le hne)).mp hup
  refine ⟨h.appeared.append hheld, ?_⟩
  rcases h.written with ⟨j, fact, hij, hup, hlast, heq⟩ | ⟨hnone, hcall⟩
  · left
    refine ⟨j, fact, hij, (upsertedAt_append hup.lt).mpr hup, ?_, heq⟩
    exact fun j' fact' h' => hlast j' fact' (hbefore j' fact' h')
  · right
    refine ⟨fun j fact h' => hnone j fact (hbefore j fact h'), ?_⟩
    rw [List.getElem?_append_left h.appeared.lt]
    exact hcall

theorem tells_of_upsert (h : AppearedAt (cs ++ [c]) e.1 i)
    (hup : UpsertedAt (cs ++ [c]) e.1 cs.length fact) (heq : (e.2 == fact) = true) :
    Tells (cs ++ [c]) i e := by
  exact ⟨h, .inl ⟨cs.length, fact, h.le, hup, fun _ _ h' => h'.le, heq⟩⟩

theorem tells_of_assert (h : AppearedAt (cs ++ [.assert e.2]) e.1 cs.length) :
    Tells (cs ++ [.assert e.2]) cs.length e := by
  refine ⟨h, .inr ⟨?_, List.getElem?_concat_length⟩⟩
  intro j fact hup
  have hne : j ≠ cs.length := by
    intro he
    cases (upsertedAt_last.mp (he ▸ hup)).1
  exact Nat.lt_of_le_of_ne hup.le hne

theorem quiet_of_ne {l : FactKey} (haim : c.aim (after cs) = .ok k) (hne : (l == k) = false) :
    ∀ fact, ¬ UpsertedAt (cs ++ [c]) l cs.length fact := by
  intro fact hup
  obtain ⟨rfl, -, k', hkey, hl⟩ := upsertedAt_last.mp hup
  obtain rfl : k' = k := Except.ok.inj (hkey.symm.trans haim)
  rw [hl] at hne
  cases hne

theorem Records.kept (hr : Records cs (after cs)) (he : e ∈ (after cs).entries)
    (hheld : (after (cs ++ [c])).Holds e.1)
    (hquiet : ∀ fact, ¬ UpsertedAt (cs ++ [c]) e.1 cs.length fact) :
    ∃ i, Tells (cs ++ [c]) i e := by
  obtain ⟨i, hi⟩ := hr.tells e he
  exact ⟨i, hi.append hheld hquiet⟩

theorem Records.ordered_append (hm : (after cs).IsKeyed) (hr : Records cs (after cs)) :
    (after cs).keys.Pairwise fun k l => ∀ i j, AppearedAt (cs ++ [c]) k i →
      AppearedAt (cs ++ [c]) l j → i < j := by
  have hheld : ∀ k ∈ (after cs).keys, (after cs).Holds k := by
    intro k hk
    obtain ⟨e, he, rfl⟩ := List.mem_map.mp hk
    exact hm.holds he
  refine hr.ordered.imp_of_mem ?_
  intro k l hk hl h i j hi hj
  exact h i j (hi.of_append (hheld k hk)) (hj.of_append (hheld l hl))

/-- An entry put in behind the others is told by the last change, and appeared after all others. -/
theorem Records.append (hm : (after cs).IsKeyed) (hr : Records cs (after cs))
    (haim : c.aim (after cs) = .ok k) (hnew : ¬ (after cs).Holds k)
    (hn : IsKeyed ⟨(after cs).entries ++ [(k, fact)]⟩)
    (hafter : after (cs ++ [c]) = ⟨(after cs).entries ++ [(k, fact)]⟩)
    (htells : AppearedAt (cs ++ [c]) k cs.length → Tells (cs ++ [c]) cs.length (k, fact)) :
    Records (cs ++ [c]) ⟨(after cs).entries ++ [(k, fact)]⟩ := by
  have hheld : ∀ e ∈ (after cs).entries ++ [(k, fact)], (after (cs ++ [c])).Holds e.1 := by
    rw [hafter]
    exact fun e he => hn.holds he
  refine ⟨?_, ?_⟩
  · intro e he
    rcases List.mem_append.mp he with hold | hlast
    · have hne := not_holds_iff.mp hnew e.1 (List.mem_map_of_mem hold)
      exact hr.kept hold (hheld e he) (quiet_of_ne haim hne)
    · rw [List.mem_singleton.mp hlast]
      have hk := hheld (k, fact) (List.mem_append_right _ List.mem_cons_self)
      exact ⟨cs.length, htells (appearedAt_last hnew hk)⟩
  · have hkeys : keys ⟨(after cs).entries ++ [(k, fact)]⟩ = (after cs).keys ++ [k] := by simp [keys]
    rw [hkeys]
    refine List.pairwise_append.mpr ⟨hr.ordered_append hm, List.pairwise_singleton _ _, ?_⟩
    intro l hl l' hl' i j hi hj
    obtain ⟨e, he, rfl⟩ := List.mem_map.mp hl
    rw [List.mem_singleton.mp hl'] at hj
    rw [hj.eq_length hnew]
    exact (hi.of_append (hm.holds he)).lt

theorem Records.upsert {old new : Value} (hm : (after cs).IsKeyed) (hr : Records cs (after cs))
    (hkey : Fact.key fact = .ok k) (hs : (after cs).entries = as ++ (k', old) :: bs)
    (hk : (k' == k) = true) (heq : (new == fact) = true)
    (hn : IsKeyed ⟨as ++ (k', new) :: bs⟩)
    (hafter : after (cs ++ [.upsert fact]) = ⟨as ++ (k', new) :: bs⟩)
    (hret : ∃ n r, (Change.upsert fact).run (after cs) = .ok (n, r)) :
    Records (cs ++ [.upsert fact]) ⟨as ++ (k', new) :: bs⟩ := by
  have hheld : ∀ e ∈ as ++ (k', new) :: bs, (after (cs ++ [.upsert fact])).Holds e.1 := by
    rw [hafter]
    exact fun e he => hn.holds he
  refine ⟨?_, ?_⟩
  · intro e he
    by_cases hother : e ∈ as ++ bs
    · have hold : e ∈ (after cs).entries := by
        rw [hs]
        rcases List.mem_append.mp hother with h | h
        · exact List.mem_append_left _ h
        · exact List.mem_append_right _ (List.mem_cons_of_mem _ h)
      exact hr.kept hold (hheld e he) (quiet_of_ne hkey (hm.other hs hk e hother))
    · obtain rfl : e = (k', new) := by
        rcases List.mem_append.mp he with h | h
        · exact absurd (List.mem_append_left _ h) hother
        · rcases List.mem_cons.mp h with h | h
          · exact h
          · exact absurd (List.mem_append_right _ h) hother
      obtain ⟨i, hi⟩ := hr.tells (k', old) (by simp [hs])
      have happ := hi.appeared.append (hheld (k', new) he)
      exact ⟨i, tells_of_upsert happ (upsertedAt_last.mpr ⟨rfl, hret, k, hkey, hk⟩) heq⟩
  · have hkeys : keys ⟨as ++ (k', new) :: bs⟩ = (after cs).keys := by simp [keys, hs]
    rw [hkeys]
    exact hr.ordered_append hm

theorem Records.edit (hm : (after cs).IsKeyed) (hr : Records cs (after cs))
    (hp : c.argument.Proper) (hw : c.argument.WellFormed) (haim : c.aim (after cs) = .ok k)
    (hrun : c.run (after cs) = .ok (n, r)) (h : Edit (after cs) k c n r) :
    Records (cs ++ [c]) n := by
  have hafter : after (cs ++ [c]) = n := by rw [after_append, change, hrun]
  have hn : n.IsKeyed := hm.edit haim hp hw h
  have hheld : ∀ e ∈ n.entries, (after (cs ++ [c])).Holds e.1 := by
    rw [hafter]
    exact fun e he => hn.holds he
  cases h with
  | known =>
    refine ⟨fun e he => hr.kept he (hheld e he) ?_, hr.ordered_append hm⟩
    intro fact hup
    cases (upsertedAt_last.mp hup).1
  | absent =>
    refine ⟨fun e he => hr.kept he (hheld e he) ?_, hr.ordered_append hm⟩
    intro fact hup
    cases (upsertedAt_last.mp hup).1
  | equal hs hk heq =>
    have hself : after cs = ⟨_⟩ := congrArg Memory.mk hs
    have hnew := hr.upsert hm haim hs hk heq (hself ▸ hm) (hself ▸ hafter) ⟨_, _, hrun⟩
    exact hself ▸ hnew
  | @asserted fact hnew =>
    exact hr.append hm haim hnew hn hafter (tells_of_assert (e := (k, fact)))
  | @inserted fact hnew =>
    refine hr.append hm haim hnew hn hafter fun happ => tells_of_upsert happ ?_ hp.refl
    exact upsertedAt_last.mpr ⟨rfl, ⟨_, _, hrun⟩, k, haim, (Fact.key_proper hp hw haim).refl⟩
  | replaced hs hk => exact hr.upsert hm haim hs hk hp.refl hn hafter ⟨_, _, hrun⟩
  | @removed _ old as bs k' hs hk =>
    have hsub : (as ++ bs).Sublist (after cs).entries := by
      rw [hs]
      exact (List.sublist_cons_self _ _).append_left _
    have hkeys := hsub.map (·.1)
    refine ⟨?_, (hr.ordered_append hm).sublist hkeys⟩
    intro e he
    exact hr.kept (hsub.subset he) (hheld e he) (quiet_of_ne haim (hm.other hs hk e he))

/-- A change that fails leaves the memory told. -/
theorem Records.failed {f : Fault} (hm : (after cs).IsKeyed) (hr : Records cs (after cs))
    (hrun : c.run (after cs) = .error f) : Records (cs ++ [c]) (after cs) := by
  have hafter : after (cs ++ [c]) = after cs := by rw [after_append, change, hrun]
  refine ⟨?_, hr.ordered_append hm⟩
  intro e he
  refine hr.kept he (hafter ▸ hm.holds he) fun fact hup => ?_
  obtain ⟨-, ⟨n, r, hret⟩, -⟩ := upsertedAt_last.mp hup
  rw [hrun] at hret
  cases hret

/-- After any changes the identities are right and the memory is what the changes say. -/
theorem after_records (hargs : ∀ c ∈ cs, c.argument.Proper ∧ c.argument.WellFormed) :
    (after cs).IsKeyed ∧ Records cs (after cs) := by
  induction cs using List.reverseRecOn with
  | nil => exact ⟨empty_isKeyed, fun _ h => (nomatch h), .nil⟩
  | append_singleton cs c ih =>
    obtain ⟨hbefore, hlast⟩ := List.forall_mem_append.mp hargs
    obtain ⟨hm, hr⟩ := ih hbefore
    obtain ⟨hp, hw⟩ := hlast c List.mem_cons_self
    cases hrun : c.run (after cs) with
    | error f =>
      have hafter : after (cs ++ [c]) = after cs := by rw [after_append, change, hrun]
      rw [hafter]
      exact ⟨hm, hr.failed hm hrun⟩
    | ok q =>
      obtain ⟨n, r⟩ := q
      have hafter : after (cs ++ [c]) = n := by rw [after_append, change, hrun]
      obtain ⟨k, haim, -, hedit⟩ := run_edit hrun
      rw [hafter]
      exact ⟨hm.edit haim hp hw hedit, hr.edit hm hp hw haim hrun hedit⟩

/-- Working memory is a map in order of insertion. After any sequence of changes, made with proper
values, the identities are pairwise different, each is that of the fact under it, and no two facts
share one. The entries stand in the order in which their identities appeared, and every fact is the
last one written: that of the latest upsert since, or of the assertion that brought it in. The next
change returns if the identity it is aimed at can be found and hashed; it reports that identity just
if the memory has changed, and touches no other entry. -/
theorem after_spec (hargs : ∀ c ∈ cs, c.argument.Proper ∧ c.argument.WellFormed) :
    ((after cs).keys.Pairwise fun k l => (k == l) = false) ∧
    (∀ e ∈ (after cs).entries, ∃ k, Fact.key e.2 = .ok k ∧ (e.1 == k) = true) ∧
    (∀ k, ((after cs).entries.filter fun e => e.1 == k).length ≤ 1) ∧
    ((after cs).keys.Pairwise fun k l =>
      ∀ i j, AppearedAt cs k i → AppearedAt cs l j → i < j) ∧
    (∀ e ∈ (after cs).entries, ∃ i, Tells cs i e) ∧
    ∀ c : Change, c.argument.Proper → c.argument.WellFormed →
      ((∃ n r, c.run (after cs) = .ok (n, r)) ↔
        ∃ k, c.aim (after cs) = .ok k ∧ k.checkHashable = .ok ()) ∧
      ∀ n r, c.run (after cs) = .ok (n, r) → ∃ k, c.aim (after cs) = .ok k ∧
        ((r = none ∧ n = after cs) ∨ (r = some k ∧ ¬ (after cs).Same n)) ∧
        (n.entries.filter fun e => !(e.1 == k)) = ((after cs).entries.filter fun e => !(e.1 == k)) ∧
        (n.Holds k ↔ ∀ target, c ≠ .retract target) := by
  obtain ⟨hm, hr⟩ := after_records hargs
  refine ⟨hm.distinct, hm.keyed, hm.filter_length_le_one, hr.ordered, hr.tells, ?_⟩
  intro c hp hw
  constructor
  · constructor
    · intro ⟨n, r, hrun⟩
      obtain ⟨k, haim, hhash, -⟩ := run_edit hrun
      exact ⟨k, haim, hhash⟩
    · intro ⟨k, haim, hhash⟩
      exact run_returns haim hhash
  · intro n r hrun
    obtain ⟨k, haim, -, hedit⟩ := run_edit hrun
    have hk : (k == k) = true := (aim_proper hp hw haim).refl
    exact ⟨k, haim, hedit.reported, hedit.untouched hk, hedit.holds_iff hm hk⟩

def Sample.record (id n : Int) : Value := .map [(.text "id", .int id), (.text "n", .int n)]

theorem Sample.int_proper (n : Int) : (Value.int n).Proper ∧ (Value.int n).WellFormed :=
  ⟨.atom rfl (by simp), .atom rfl (by simp)⟩

theorem Sample.text_proper (s : String) : (Value.text s).Proper ∧ (Value.text s).WellFormed :=
  ⟨.atom rfl (by simp), .atom rfl (by simp)⟩

theorem Sample.record_proper (id n : Int) : (record id n).Proper ∧ (record id n).WellFormed := by
  have hdistinct : [(Value.text "id", Value.int id), (Value.text "n", Value.int n)].Pairwise
      fun e f => Value.eqv e.1 f.1 = false := by
    have hne : Value.eqv (.text "id") (.text "n") = false := by decide
    exact List.pairwise_pair.mpr hne
  have hid := Sample.int_proper id
  have hn := Sample.int_proper n
  refine ⟨.map ?_ ?_ hdistinct, .map ?_ ?_ ?_ hdistinct⟩
  · simp [Sample.text_proper]
  · simp [hid, hn]
  · simp [Sample.text_proper]
  · simp [hid, hn]
  · simp [Value.hashable, Value.unhashable?]

/-- Two records are put in, one of them again to no effect, the first is replaced in its place, the
second is taken out by its kind and id and put in once more. -/
theorem after_spec_records : ∃ cs : List Change,
    (∀ c ∈ cs, c.argument.Proper ∧ c.argument.WellFormed) ∧ cs.length = 6 ∧
    ((after cs).facts == [Sample.record 1 7, Sample.record 2 5]) = true ∧
    ((after cs).keys.Pairwise fun k l =>
      ∀ i j, AppearedAt cs k i → AppearedAt cs l j → i < j) ∧
    ∀ e ∈ (after cs).entries, ∃ i, Tells cs i e := by
  let cs : List Change := [.assert (Sample.record 1 0), .upsert (Sample.record 2 0),
    .assert (Sample.record 1 9), .upsert (Sample.record 1 7),
    .retract (.tuple [.text "dict", .int 2]), .assert (Sample.record 2 5)]
  have hargs : ∀ c ∈ cs, c.argument.Proper ∧ c.argument.WellFormed := by
    have htuple : (Value.tuple [.text "dict", .int 2]).Proper ∧
        (Value.tuple [.text "dict", .int 2]).WellFormed :=
      ⟨.tuple (by simp [Sample.text_proper, Sample.int_proper]),
        .tuple (by simp [Sample.text_proper, Sample.int_proper])⟩
    simp [cs, Change.argument, Sample.record_proper, htuple]
  have hspec := after_spec hargs
  refine ⟨cs, hargs, rfl, ?_, hspec.2.2.2.1, hspec.2.2.2.2.1⟩
  decide +kernel

end RuleEngine.Memory
