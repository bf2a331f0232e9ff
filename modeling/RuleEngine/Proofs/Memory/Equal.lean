import RuleEngine.Proofs.Fact.Alike
import RuleEngine.Proofs.Memory.History

/-!
# Asserting a fact that equals one in memory

A memory is keyed by identities, and a fact that equals one in memory is known to it if the
identities of the two come out alike (`Fact.Alike`). Then neither an assertion nor an upsert has
anything to do. Identities come out alike for facts of one class with texts as kinds and with ids
that are hashable or plain data; without an id the two must hold the same data, since a digest tells
the sorts of equal numbers apart. Facts that do not are different facts and may stand side by side.

* `fact_of_change`: all that is in memory was put there by a change.
* `assert_held`, `upsert_equal`: an equal fact of a held identity changes nothing.
* `key_held_iff`: an equal fact has a held identity exactly if the two identities come out alike.
* `equal_held`: what this makes of equal facts after any sequence of changes.
-/

namespace RuleEngine.Memory

variable {m n : Memory} {c : Change} {cs : List Change} {e : FactKey × Value} {f : Value}
variable {k : FactKey} {r : Option FactKey}

/-! ## What is in memory -/

/-- A change brings nothing into memory but its argument. -/
theorem Edit.fact_mem (h : Edit m k c n r) (he : e ∈ n.entries) :
    e.2 = c.argument ∨ ∃ e' ∈ m.entries, e'.2 = e.2 := by
  cases h with
  | known | equal | absent => exact .inr ⟨e, he, rfl⟩
  | asserted | inserted =>
    rcases List.mem_append.mp he with he | he
    · exact .inr ⟨e, he, rfl⟩
    · rw [List.mem_singleton.mp he]
      exact .inl rfl
  | @replaced fact old as bs k' hs =>
    rcases List.mem_append.mp he with he | he
    · exact .inr ⟨e, hs ▸ List.mem_append_left _ he, rfl⟩
    · rcases List.mem_cons.mp he with rfl | he
      · exact .inl rfl
      · exact .inr ⟨e, hs ▸ List.mem_append_right _ (List.mem_cons_of_mem _ he), rfl⟩
  | removed hs =>
    refine .inr ⟨e, ?_, rfl⟩
    rw [hs]
    rcases List.mem_append.mp he with he | he
    · exact List.mem_append_left _ he
    · exact List.mem_append_right _ (List.mem_cons_of_mem _ he)

theorem fact_of_change (he : e ∈ (after cs).entries) : ∃ c ∈ cs, e.2 = c.argument := by
  induction cs using List.reverseRecOn generalizing e with
  | nil => cases he
  | append_singleton cs c ih =>
    have hbefore : (∃ e' ∈ (after cs).entries, e'.2 = e.2) → ∃ d ∈ cs ++ [c], e.2 = d.argument := by
      rintro ⟨e', he', heq⟩
      obtain ⟨d, hd, harg⟩ := ih he'
      exact ⟨d, List.mem_append_left _ hd, heq ▸ harg⟩
    rw [after_append, change] at he
    cases hrun : c.run (after cs) with
    | error f =>
      rw [hrun] at he
      exact hbefore ⟨e, he, rfl⟩
    | ok q =>
      obtain ⟨n, r⟩ := q
      rw [hrun] at he
      obtain ⟨k, -, -, hedit⟩ := run_edit hrun
      rcases hedit.fact_mem he with harg | hold
      · exact ⟨c, List.mem_append_right _ (List.mem_singleton_self c), harg⟩
      · exact hbefore hold

/-! ## Facts whose identity is held -/

theorem assert_held (hkey : Fact.key f = .ok k) (hhash : k.checkHashable = .ok ())
    (hheld : m.Holds k) : m.assert f = .ok (m, none) := by
  have hknown : m.hasKey k = .ok true := hasKey_eq_ok.mpr ⟨hhash, by simp [hheld]⟩
  simp only [assert, bind_eq_ok]
  exact ⟨k, hkey, true, hknown, rfl⟩

/-- Upserting a fact that equals the one held under its identity changes nothing. -/
theorem upsert_equal (hm : m.IsKeyed) (he : e ∈ m.entries) (hkey : Fact.key f = .ok k)
    (hhash : k.checkHashable = .ok ()) (hek : (e.1 == k) = true) (heq : (e.2 == f) = true) :
    m.upsert f = .ok (m, none) := by
  obtain ⟨as, bs, hs⟩ := List.append_of_mem he
  have hothers : ∀ e' ∈ as ++ bs, (e'.1 == k) = false := hm.other hs hek
  have hfound : Assoc.lookup k m.entries = some e.2 := by
    have hbefore : Assoc.lookup k as = none :=
      Assoc.lookup_eq_none.mpr fun a ha => hothers a (List.mem_append_left _ ha)
    rw [hs, Assoc.lookup_append, hbefore, Option.none_or, Assoc.lookup, if_pos hek]
  simp only [upsert, bind_eq_ok]
  refine ⟨k, hkey, some e.2, get_eq_ok.mpr ⟨hhash, hfound.symm⟩, ?_⟩
  exact if_pos heq

/-- Upserting a fact of a new identity puts it in behind the others. -/
theorem upsert_new (hkey : Fact.key f = .ok k) (hnew : m.hasKey k = .ok false) :
    m.upsert f = .ok (⟨m.entries ++ [(k, f)]⟩, some k) := by
  obtain ⟨hhash, hknown⟩ := hasKey_eq_ok.mp hnew
  have habsent : ¬ m.Holds k := fun hheld => Bool.false_ne_true (hknown.mpr hheld)
  have hnone : Assoc.lookup k m.entries = none := lookup_eq_none_iff.mpr habsent
  have hfree : Assoc.contains k m.entries = false :=
    Bool.eq_false_iff.mpr fun hc => habsent (holds_iff.mpr hc)
  simp only [upsert, bind_eq_ok]
  refine ⟨k, hkey, none, get_eq_ok.mpr ⟨hhash, hnone.symm⟩, ?_⟩
  rw [put, Assoc.insert_of_not_contains hfree]
  rfl

/-! ## Equal facts -/

/-- What is in memory after changes made with proper values is proper. -/
theorem after_proper (hargs : ∀ c ∈ cs, c.argument.Proper ∧ c.argument.WellFormed)
    (he : e ∈ (after cs).entries) : e.2.Proper ∧ e.2.WellFormed := by
  obtain ⟨c, hc, hfact⟩ := fact_of_change he
  rw [hfact]
  exact hargs c hc

/-- A fact that equals one in memory has the identity of that one exactly if the identities come out
alike. -/
theorem key_held_iff (hargs : ∀ c ∈ cs, c.argument.Proper ∧ c.argument.WellFormed)
    (he : e ∈ (after cs).entries) (heq : (e.2 == f) = true) (hkey : Fact.key f = .ok k) :
    (e.1 == k) = true ↔ Fact.Alike e.2 f := by
  obtain ⟨hm, -⟩ := after_records hargs
  obtain ⟨l, hl, hel⟩ := hm.keyed e he
  have hproper : e.1.value.Proper := hm.proper e.1 (List.mem_map_of_mem he)
  have hsame : (l == k) = (e.1 == k) := hproper.isSteady.congr hel k.value
  rw [← Fact.key_eqv_iff (after_proper hargs he).1 heq hl hkey, hsame]

/-- Identity respects equality between kindred facts. After any sequence of changes made with proper
values, no two equal facts in memory are kindred. Of a proper fact that equals one in memory, an
assertion or an upsert returns the memory unchanged if the two are kindred; if the fact is an
identity itself, it must be hashable.

In general the fact has the identity of the one that it equals exactly if what the two identities
are made of comes out alike. No two equal facts in memory are alike in this, and a fact that is
alike to one it equals changes nothing. -/
theorem equal_held (hargs : ∀ c ∈ cs, c.argument.Proper ∧ c.argument.WellFormed) :
    ((after cs).entries.Pairwise fun e e' => (e.2 == e'.2) = true →
      ¬ Fact.Kindred e.2 e'.2 ∧ ¬ Fact.Alike e.2 e'.2) ∧
    ∀ e ∈ (after cs).entries, ∀ f : Value, f.Proper → f.WellFormed → (e.2 == f) = true →
      (Fact.Kindred e.2 f → (∀ k r b, f = .key k r b → f.hashable = true) →
        (after cs).assert f = .ok (after cs, none) ∧
        (after cs).upsert f = .ok (after cs, none)) ∧
      ∀ k, Fact.key f = .ok k → k.checkHashable = .ok () →
        ((e.1 == k) = true ↔ Fact.Alike e.2 f) ∧
        (Fact.Alike e.2 f → (after cs).assert f = .ok (after cs, none) ∧
          (after cs).upsert f = .ok (after cs, none)) := by
  obtain ⟨hm, -⟩ := after_records hargs
  refine ⟨?_, ?_⟩
  · have hdistinct : (after cs).entries.Pairwise fun e e' => (e.1 == e'.1) = false :=
      List.pairwise_map.mp hm.distinct
    refine hdistinct.imp_of_mem fun {e e'} he he' hne heq => ?_
    have hp := (after_proper hargs he).1
    have hp' := (after_proper hargs he').1
    have hapart : ¬ Fact.Alike e.2 e'.2 := by
      intro halike
      obtain ⟨l, hl, hel⟩ := hm.keyed e' he'
      have hsame := (key_held_iff hargs he heq hl).mpr halike
      rw [join (hm.proper e.1 (List.mem_map_of_mem he))
        (hm.proper e'.1 (List.mem_map_of_mem he')) hsame hel] at hne
      cases hne
    exact ⟨fun hkindred => hapart (hkindred.alike hp hp' heq), hapart⟩
  · intro e he f hp _ heq
    have hp' := (after_proper hargs he).1
    have hknown : ∀ k, Fact.key f = .ok k → k.checkHashable = .ok () → Fact.Alike e.2 f →
        (after cs).assert f = .ok (after cs, none) ∧
        (after cs).upsert f = .ok (after cs, none) := by
      intro k hkey hhash halike
      have hek := (key_held_iff hargs he heq hkey).mpr halike
      exact ⟨assert_held hkey hhash ⟨e, he, hek⟩, upsert_equal hm he hkey hhash hek heq⟩
    refine ⟨?_, fun k hkey hhash => ⟨key_held_iff hargs he heq hkey, hknown k hkey hhash⟩⟩
    intro hkindred hkeys
    obtain ⟨l, hl, -⟩ := hm.keyed e he
    obtain ⟨k, hkey⟩ := hkindred.key_returns hp' hp heq hl
    exact hknown k hkey (Fact.key_hashable hkey hkeys) (hkindred.alike hp' hp heq)

/-- A fact that states its kind and its id, the id as a truth value. -/
def Sample.flagged (kind : String) (id : Bool) : Value :=
  .map [(.text "kind", .text kind), (.text "id", .bool id)]

theorem Sample.true_proper : (Value.bool true).Proper ∧ (Value.bool true).WellFormed :=
  ⟨.atom rfl (by simp), .atom rfl (by simp)⟩

theorem Sample.pair_proper {k l : String} {v w : Value} (hkl : k ≠ l)
    (hv : v.Proper ∧ v.WellFormed) (hw : w.Proper ∧ w.WellFormed) :
    (Value.map [(.text k, v), (.text l, w)]).Proper ∧
      (Value.map [(.text k, v), (.text l, w)]).WellFormed := by
  have hdistinct : [(Value.text k, v), (Value.text l, w)].Pairwise
      fun e f => Value.eqv e.1 f.1 = false :=
    List.pairwise_pair.mpr (Bool.eq_false_iff.mpr fun h => hkl (Value.eqv_text_iff.mp h))
  refine ⟨.map ?_ ?_ hdistinct, .map ?_ ?_ ?_ hdistinct⟩
  · simp [Sample.text_proper]
  · simp [hv, hw]
  · simp [Sample.text_proper]
  · simp [hv, hw]
  · simp [Value.hashable_text]

/-- The order with the id `1` is in memory, and the order with the id `True` is the same one. -/
theorem equal_held_orders :
    let m := after [.assert (Sample.stated "order" 1)]
    m.facts = [Sample.stated "order" 1] ∧
      (Sample.stated "order" 1 == Sample.flagged "order" true) = true ∧
      m.assert (Sample.flagged "order" true) = .ok (m, none) ∧
      m.upsert (Sample.flagged "order" true) = .ok (m, none) := by
  intro m
  have hheld := Sample.pair_proper (k := "id") (l := "kind") (by decide) (Sample.int_proper 1)
    (Sample.text_proper "order")
  have hgiven := Sample.pair_proper (k := "kind") (l := "id") (by decide)
    (Sample.text_proper "order") Sample.true_proper
  have hargs : ∀ c ∈ [Change.assert (Sample.stated "order" 1)],
      c.argument.Proper ∧ c.argument.WellFormed := List.forall_mem_singleton.mpr hheld
  have heq : (Sample.stated "order" 1 == Sample.flagged "order" true) = true := by decide
  have hkinds : Fact.StatesText (Sample.stated "order" 1) ∧
      Fact.StatesText (Sample.flagged "order" true) :=
    ⟨fun v h => ⟨"order", (Option.some.inj h).symm⟩, fun v h => ⟨"order", (Option.some.inj h).symm⟩⟩
  have hkindred : Fact.Kindred (Sample.stated "order" 1) (Sample.flagged "order" true) :=
    .ids rfl hkinds rfl rfl (show Value.int 1 ≠ .none by simp) (.inl ⟨rfl, rfl⟩)
  have hmem : (⟨.text "order", .int 1, .bool false⟩, Sample.stated "order" 1) ∈ m.entries :=
    List.mem_singleton_self _
  obtain ⟨hknown, -⟩ := (equal_held hargs).2 _ hmem _ hgiven.1 hgiven.2 heq
  exact ⟨rfl, heq, hknown hkindred (by simp)⟩

def Sample.point (x : Value) : Value := .map [(.text "x", x)]

def Sample.pointKey (x : Value) : FactKey :=
  ⟨.text "dict", .text (Sample.point x).digest, .bool true⟩

theorem Sample.point_proper {x : Value} (h : x.Proper ∧ x.WellFormed) :
    (Sample.point x).Proper ∧ (Sample.point x).WellFormed := by
  refine ⟨.map ?_ ?_ (List.pairwise_singleton _ _), .map ?_ ?_ ?_ (List.pairwise_singleton _ _)⟩
  · simp [Sample.text_proper]
  · simp [h]
  · simp [Sample.text_proper]
  · simp [h]
  · simp [Value.hashable_text]

theorem Sample.point_key {x : Value} (h : x.isOverlong = false) :
    Fact.key (point x) = .ok (pointKey x) := by
  have hshown : (point x).isOverlong = false := by
    rw [point, Value.isOverlong, Value.isOverlongEntry, h]
    rfl
  exact (Fact.key_eq_ok (by simp [point])).mpr
    ⟨rfl, .none, rfl, rfl, .inl ⟨rfl, Value.checkContent_of_shown hshown⟩⟩

/-- The fact whose field is `1` is in memory. That whose field is `True` is of the same class and
equals it, and both an assertion and an upsert put it in beside the other. -/
theorem equal_held_truth : ∃ cs : List Change, ∃ g f : Value,
    (∀ c ∈ cs, c.argument.Proper ∧ c.argument.WellFormed) ∧ f.Proper ∧ f.WellFormed ∧
    (after cs).facts = [g] ∧ g.SameClass f ∧ (g == f) = true ∧
    (∃ n k, (after cs).assert f = .ok (n, some k) ∧ n.facts = [g, f]) ∧
    ∃ n k, (after cs).upsert f = .ok (n, some k) ∧ n.facts = [g, f] := by
  have hone := Sample.point_proper (Sample.int_proper 1)
  have htrue := Sample.point_proper Sample.true_proper
  have hfirst := Sample.point_key (x := .int 1) (by decide +kernel)
  have hkey := Sample.point_key (x := .bool true) rfl
  have hentries : (after [.assert (Sample.point (.int 1))]).entries =
      [(Sample.pointKey (.int 1), Sample.point (.int 1))] := by
    have hput : empty.assert (Sample.point (.int 1)) = _ := assert_new hfirst rfl
    rw [after, List.foldl_cons, List.foldl_nil, change, Change.run, hput]
    rfl
  have hdiffer : (Sample.pointKey (.int 1) == Sample.pointKey (.bool true)) = false := by
    decide +kernel
  have hnew : (after [.assert (Sample.point (.int 1))]).hasKey (Sample.pointKey (.bool true)) =
      .ok false := by
    have habsent : ¬ (after [.assert (Sample.point (.int 1))]).Holds
        (Sample.pointKey (.bool true)) := by
      rw [not_holds_iff, keys, hentries]
      exact List.forall_mem_singleton.mpr hdiffer
    exact hasKey_eq_ok.mpr ⟨rfl, by simp [habsent]⟩
  have hfacts : (after [.assert (Sample.point (.int 1))]).facts = [Sample.point (.int 1)] := by
    rw [facts, hentries]
    rfl
  have hboth : facts ⟨(after [.assert (Sample.point (.int 1))]).entries ++
      [(Sample.pointKey (.bool true), Sample.point (.bool true))]⟩ =
        [Sample.point (.int 1), Sample.point (.bool true)] := by
    rw [facts, hentries]
    rfl
  refine ⟨[.assert (Sample.point (.int 1))], Sample.point (.int 1), Sample.point (.bool true),
    List.forall_mem_singleton.mpr hone, htrue.1, htrue.2, hfacts, rfl, by decide, ?_, ?_⟩
  · exact ⟨_, _, assert_new hkey hnew, hboth⟩
  · exact ⟨_, _, upsert_new hkey hnew, hboth⟩

end RuleEngine.Memory
