import RuleEngine.Proofs.Fact.Frozen
import RuleEngine.Proofs.Fact.Key
import RuleEngine.Proofs.Memory.Edit

/-!
# Taking back an assertion

An assertion finds the identity of its fact; a retraction is given a target, which may be that fact
again. The two mean the same identity with one exception: a pair of a text and a value also stands
for the identity of that kind and id, and if that one is in memory, it is meant. A pair is itself
known by its content, so the two identities always differ (`pairKey?_ne_key`).

An identity that holds a not-a-number equals nothing, itself included, and cannot be found again.

* `assert_new`, `retract_of_holds`: what the two changes do where they do something.
* `target_eq_pair`, `target_eq_key`: which identity a retraction is aimed at.
* `isOverlong_of_pairKey?`: the identity a pair stands for is found, if the pair can be shown.
* `retract_assert`: retracting what was asserted gives back the memory, but for that exception.
-/

namespace RuleEngine

theorem FactKey.checkHashable_eq_ok {k : FactKey} {u : Unit} : k.checkHashable = .ok u ↔
    k.kind.hashable = true ∧ k.ref.hashable = true ∧ k.byContent.hashable = true := by
  have hpart (v : Value) : v.checkHashable = .ok () ↔ v.hashable = true := by
    unfold Value.checkHashable Value.hashable
    cases v.unhashable? <;> simp
  simp only [checkHashable, bind_eq_ok, hpart, exists_const]

namespace Memory

variable {m n : Memory} {f target : Value} {k l : FactKey}

/-! ## Facts that are pairs -/

/-- Only a pair of a kind and an id can mean an identity other than its own. -/
theorem pairKey?_eq_some (h : pairKey? f = .ok (some l)) : ∃ kind id name, f = .tuple [kind, id] ∧
    kind.name? = some name ∧ l = ⟨name.value, id.freeze, .bool false⟩ := by
  unfold pairKey? at h
  split at h
  · rename_i kind id
    cases hname : kind.name? with
    | none => simp [hname] at h
    | some name =>
      simp only [hname, map_eq_ok, FactKey.ofId, bind_eq_ok, Option.some.injEq] at h
      obtain ⟨_, ⟨_, -, h⟩, rfl⟩ := h
      exact ⟨kind, id, name, rfl, hname, (pure_eq_ok.mp h).symm⟩
  · cases h

theorem pairKey?_hashable (h : pairKey? f = .ok (some l)) : l.checkHashable = .ok () := by
  obtain ⟨kind, id, name, -, -, rfl⟩ := pairKey?_eq_some h
  refine FactKey.checkHashable_eq_ok.mpr ⟨?_, Value.freeze_hashable id, rfl⟩
  unfold Name.value
  cases name.member <;> rfl

/-- The identity a pair stands for can be found, unless the pair cannot be shown. -/
theorem isOverlong_of_pairKey? {e : Fault} (h : pairKey? f = .error e) : f.isOverlong = true := by
  unfold pairKey? at h
  split at h
  · rename_i kind id
    cases hname : kind.name? with
    | none => simp [hname] at h
    | some name =>
      simp only [hname, map_eq_error, FactKey.ofId, bind_eq_error] at h
      rcases h with h | ⟨_, _, ⟨⟩⟩
      have hid : id.isUnfreezable = true := (checkLength_eq_error.mp h).1
      exact Value.isOverlongAny_iff.mpr ⟨id, by simp, Value.isOverlong_of_isUnfreezable hid⟩
  · cases h

/-- A pair stands for an identity by id, which never equals its own, an identity by content. -/
theorem pairKey?_ne_key (h : pairKey? f = .ok (some l)) (hkey : Fact.key f = .ok k) :
    (k == l) = false := by
  obtain ⟨kind, id, name, rfl, -, rfl⟩ := pairKey?_eq_some h
  simp only [Fact.key_tuple, bind_eq_ok, pure_eq_ok] at hkey
  obtain ⟨_, -, rfl⟩ := hkey
  refine Bool.eq_false_iff.mpr fun he => ?_
  obtain ⟨_, _, _, ⟨⟩, -, -, hb⟩ := Value.eqv_key.mp he
  cases hb

/-! ## Asserting and retracting -/

theorem assert_new (hkey : Fact.key f = .ok k) (hnew : m.hasKey k = .ok false) :
    m.assert f = .ok (⟨m.entries ++ [(k, f)]⟩, some k) := by
  have hhash := (hasKey_eq_ok.mp hnew).1
  have habsent : Assoc.contains k m.entries = false := by
    refine Bool.eq_false_iff.mpr fun hc => ?_
    exact Bool.false_ne_true ((hasKey_eq_ok.mp hnew).2.mpr (holds_iff.mpr hc))
  simp only [assert, bind_eq_ok]
  refine ⟨k, hkey, false, hnew, ?_⟩
  rw [put, Assoc.insert_of_not_contains habsent]
  rfl

/-- A retraction aimed at an identity that is held takes out the first entry under it. -/
theorem retract_of_holds (haim : m.target target = .ok k) (hhash : k.checkHashable = .ok ())
    (hheld : m.Holds k) : m.retract target = .ok (⟨Assoc.erase k m.entries⟩, some k) := by
  have hkey : m.hasKey k = .ok true := hasKey_eq_ok.mpr ⟨hhash, by simp [hheld]⟩
  simp only [retract, bind_eq_ok]
  exact ⟨k, haim, true, hkey, rfl⟩

/-- A pair is taken for the identity it stands for if that is held, and any other target is taken
for the fact itself. -/
theorem target_eq_pair (h : pairKey? f = .ok (some l)) (hheld : m.Holds l) :
    m.target f = .ok l := by
  have hl : m.hasKey l = .ok true := hasKey_eq_ok.mpr ⟨pairKey?_hashable h, by simp [hheld]⟩
  simp only [Memory.target, bind_eq_ok]
  refine ⟨_, h, ?_⟩
  simp only [bind_eq_ok]
  exact ⟨true, hl, rfl⟩

theorem target_eq_key {o : Option FactKey} (hkey : Fact.key f = .ok k) (ho : pairKey? f = .ok o)
    (hpair : ∀ l ∈ o, ¬ m.Holds l) : m.target f = .ok k := by
  simp only [Memory.target, bind_eq_ok]
  refine ⟨o, ho, ?_⟩
  cases o with
  | none => exact hkey
  | some l =>
    have hl : m.hasKey l = .ok false :=
      hasKey_eq_ok.mpr ⟨pairKey?_hashable ho, by simp [hpair l rfl]⟩
    simp only [bind_eq_ok]
    exact ⟨false, hl, hkey⟩

/-- A retraction fails if the identity that its target may stand for cannot be found. -/
theorem retract_of_pairKey? {e : Fault} (h : pairKey? f = .error e) : m.retract f = .error e := by
  have haim : m.target f = .error e := by
    rw [Memory.target, h]
    rfl
  rw [retract, haim]
  rfl

theorem holds_append : Holds ⟨m.entries ++ [(k, f)]⟩ l ↔ m.Holds l ∨ (k == l) = true := by
  simp [Holds, or_and_right, exists_or]

/-- Retracting a fact undoes having asserted it, unless the fact is a pair that stands for another
identity. If that one is in memory, the other fact goes, and the one just asserted stays. If it
cannot be found, which takes a pair that cannot be shown, nothing is retracted. -/
theorem retract_assert (hkey : Fact.key f = .ok k) (hself : (k == k) = true)
    (hnew : m.hasKey k = .ok false) : ∃ n, m.assert f = .ok (n, some k) ∧
      (∀ o, pairKey? f = .ok o → (∀ l ∈ o, ¬ m.Holds l) → n.retract f = .ok (m, some k)) ∧
      (∀ l, pairKey? f = .ok (some l) → m.Holds l →
        n.retract f = .ok (⟨Assoc.erase l m.entries ++ [(k, f)]⟩, some l)) ∧
      ∀ e, pairKey? f = .error e → f.isOverlong = true ∧ n.retract f = .error e := by
  obtain ⟨hhash, hnone⟩ := hasKey_eq_ok.mp hnew
  have habsent : ¬ m.Holds k := fun hheld => Bool.false_ne_true (hnone.mpr hheld)
  refine ⟨_, assert_new hkey hnew, ?_, ?_, fun e he =>
    ⟨isOverlong_of_pairKey? he, retract_of_pairKey? he⟩⟩
  · intro o ho hpair
    have hpair' : ∀ l ∈ o, ¬ Holds ⟨m.entries ++ [(k, f)]⟩ l := by
      rintro l rfl
      rw [holds_append, pairKey?_ne_key ho hkey]
      simpa using hpair l rfl
    have hheld : Holds ⟨m.entries ++ [(k, f)]⟩ k := holds_append.mpr (.inr hself)
    have hother : ∀ e ∈ m.entries, (e.1 == k) = false := fun e he =>
      Bool.eq_false_iff.mpr fun hk => habsent ⟨e, he, hk⟩
    rw [retract_of_holds (target_eq_key hkey ho hpair') hhash hheld, Assoc.erase_split hself hother,
      List.append_nil]
  · intro l hl hheld
    have hheld' : Holds ⟨m.entries ++ [(k, f)]⟩ l := holds_append.mpr (.inl hheld)
    rw [retract_of_holds (target_eq_pair hl hheld') (pairKey?_hashable hl) hheld',
      Assoc.erase_append (holds_iff.mp hheld)]

def Sample.stated (kind : String) (id : Int) : Value :=
  .map [(.text "id", .int id), (.text "kind", .text kind)]

def Sample.holding (kind : String) (id : Int) : Memory :=
  ⟨[(⟨.text kind, .int id, .bool false⟩, Sample.stated kind id)]⟩

def Sample.pair (kind : String) (id : Int) : Value := .tuple [.text kind, .int id]

def Sample.pairKey (kind : String) (id : Int) : FactKey :=
  ⟨.text "tuple", .text (Sample.pair kind id).digest, .bool true⟩

theorem Sample.pair_key (kind : String) (id : Int) (h : (Value.int id).isOverlong = false) :
    Fact.key (pair kind id) = .ok (pairKey kind id) := by
  have hshown : (pair kind id).isOverlong = false := by
    rw [pair, Value.isOverlong, Value.isOverlongAny, Value.isOverlongAny, h]
    rfl
  rw [pair, Fact.key_tuple, ← pair, Value.checkContent_of_shown hshown]
  rfl

theorem Sample.pairKey_refl (kind : String) (id : Int) :
    (pairKey kind id == pairKey kind id) = true := by
  have hproper : (pairKey kind id).value.Proper :=
    .key (Value.proper_text _) (Value.proper_text _) (Value.proper_bool true)
  exact hproper.refl

/-- The pair `("A", 1)` comes and goes, while the fact of kind `A` with the id `2` stays. -/
theorem retract_assert_beside : ∃ n,
    (Sample.holding "A" 2).hasKey (Sample.pairKey "A" 1) = .ok false ∧
    (Sample.holding "A" 2).assert (Sample.pair "A" 1) = .ok (n, some (Sample.pairKey "A" 1)) ∧
    n.retract (Sample.pair "A" 1) = .ok (Sample.holding "A" 2, some (Sample.pairKey "A" 1)) := by
  have hkey := Sample.pair_key "A" 1 (by decide +kernel)
  have hnew : (Sample.holding "A" 2).hasKey (Sample.pairKey "A" 1) = .ok false := rfl
  obtain ⟨n, hassert, hundo, -, -⟩ := retract_assert hkey (Sample.pairKey_refl "A" 1) hnew
  refine ⟨n, hnew, hassert, hundo (some ⟨.text "A", .int 1, .bool false⟩) rfl ?_⟩
  rintro l ⟨⟩
  have hfree : (Sample.holding "A" 2).hasKey ⟨.text "A", .int 1, .bool false⟩ = .ok false := rfl
  exact fun hheld => Bool.false_ne_true ((hasKey_eq_ok.mp hfree).2.mpr hheld)

/-- The memory holds the fact of kind `A` with the id `1`. Asserting the pair `("A", 1)`, a fact
with an identity of its own, and retracting it again takes out that fact and leaves the pair. -/
theorem retract_assert_other :
    empty.assert (Sample.stated "A" 1) =
      .ok (Sample.holding "A" 1, some ⟨.text "A", .int 1, .bool false⟩) ∧
    Fact.key (Sample.pair "A" 1) = .ok (Sample.pairKey "A" 1) ∧
    (Sample.holding "A" 1).hasKey (Sample.pairKey "A" 1) = .ok false ∧
    ∃ n n' l, (Sample.holding "A" 1).assert (Sample.pair "A" 1) =
        .ok (n, some (Sample.pairKey "A" 1)) ∧
      n.retract (Sample.pair "A" 1) = .ok (n', some l) ∧
      n'.facts = [Sample.pair "A" 1] ∧ n' ≠ Sample.holding "A" 1 := by
  have hkey := Sample.pair_key "A" 1 (by decide +kernel)
  have hnew : (Sample.holding "A" 1).hasKey (Sample.pairKey "A" 1) = .ok false := rfl
  obtain ⟨n, hassert, -, htaken, -⟩ := retract_assert hkey (Sample.pairKey_refl "A" 1) hnew
  have hheld : (Sample.holding "A" 1).Holds ⟨.text "A", .int 1, .bool false⟩ := by
    have hfound : (Sample.holding "A" 1).hasKey ⟨.text "A", .int 1, .bool false⟩ = .ok true := rfl
    exact (hasKey_eq_ok.mp hfound).2.mp rfl
  refine ⟨rfl, hkey, hnew, n, _, _, hassert, htaken _ rfl hheld, rfl, ?_⟩
  intro he
  have hfacts : [Sample.pair "A" 1] = [Sample.stated "A" 1] := congrArg facts he
  simp [Sample.pair, Sample.stated] at hfacts

end Memory

end RuleEngine
