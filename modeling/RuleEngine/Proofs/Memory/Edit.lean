import RuleEngine.Proofs.Assoc
import RuleEngine.Proofs.Traced
import RuleEngine.Session.Change

/-!
# What a change does to a memory

A change is aimed at one identity (`Change.aim`), and there is little it can do there: leave
everything as it is, put a new entry behind all others, replace the value of an entry in its place,
or take an entry out. `Memory.Edit` says which of these happens when, and what is reported.

* `run_edit`: every change that returns is an edit. All that is known of working memory is derived
  from this.
* `run_returns`: a change returns if the identity it is aimed at can be found and hashed.
-/

namespace RuleEngine

def Change.argument : Change → Value
  | assert fact => fact
  | retract target => target
  | upsert fact => fact

def Change.aim (m : Memory) : Change → Except Fault FactKey
  | assert fact => Fact.key fact
  | retract target => m.target target
  | upsert fact => Fact.key fact

namespace Memory

variable {m n : Memory} {k : FactKey} {c : Change} {r : Option FactKey}

/-- Some entry is stored under the identity. -/
def Holds (m : Memory) (k : FactKey) : Prop := ∃ e ∈ m.entries, (e.1 == k) = true

/-- What a change aimed at an identity makes of a memory, and what it reports. -/
inductive Edit (m : Memory) (k : FactKey) : Change → Memory → Option FactKey → Prop where
  | known {fact : Value} (holds : m.Holds k) : Edit m k (.assert fact) m none
  | equal {fact old : Value} {as bs : List (FactKey × Value)} {k' : FactKey}
      (split : m.entries = as ++ (k', old) :: bs) (key : (k' == k) = true)
      (eq : (old == fact) = true) : Edit m k (.upsert fact) m none
  | absent {target : Value} (holds : ¬ m.Holds k) : Edit m k (.retract target) m none
  | asserted {fact : Value} (holds : ¬ m.Holds k) :
      Edit m k (.assert fact) ⟨m.entries ++ [(k, fact)]⟩ (some k)
  | inserted {fact : Value} (holds : ¬ m.Holds k) :
      Edit m k (.upsert fact) ⟨m.entries ++ [(k, fact)]⟩ (some k)
  | replaced {fact old : Value} {as bs : List (FactKey × Value)} {k' : FactKey}
      (split : m.entries = as ++ (k', old) :: bs) (key : (k' == k) = true)
      (ne : (old == fact) = false) : Edit m k (.upsert fact) ⟨as ++ (k', fact) :: bs⟩ (some k)
  | removed {target old : Value} {as bs : List (FactKey × Value)} {k' : FactKey}
      (split : m.entries = as ++ (k', old) :: bs) (key : (k' == k) = true) :
      Edit m k (.retract target) ⟨as ++ bs⟩ (some k)

theorem holds_iff : m.Holds k ↔ Assoc.contains k m.entries = true := Assoc.contains_iff.symm

theorem get_eq_ok {o : Option Value} :
    m.get k = .ok o ↔ k.checkHashable = .ok () ∧ o = Assoc.lookup k m.entries := by
  simp only [get, bind_eq_ok, pure_eq_ok]
  constructor
  · rintro ⟨⟨⟩, hk, rfl⟩
    exact ⟨hk, rfl⟩
  · rintro ⟨hk, rfl⟩
    exact ⟨(), hk, rfl⟩

theorem hasKey_eq_ok {b : Bool} :
    m.hasKey k = .ok b ↔ k.checkHashable = .ok () ∧ (b = true ↔ m.Holds k) := by
  simp only [hasKey, bind_eq_ok, pure_eq_ok, get_eq_ok, holds_iff, ← Assoc.lookup_isSome]
  constructor
  · rintro ⟨o, ⟨hk, rfl⟩, rfl⟩
    exact ⟨hk, Iff.rfl⟩
  · rintro ⟨hk, hb⟩
    exact ⟨_, ⟨hk, rfl⟩, (Bool.eq_iff_iff.mpr hb).symm⟩

theorem lookup_eq_none_iff : Assoc.lookup k m.entries = none ↔ ¬ m.Holds k := by
  rw [holds_iff, ← Assoc.lookup_isSome, Option.not_isSome_iff_eq_none]

/-- Every change that returns is an edit at the identity it is aimed at. -/
theorem run_edit (h : c.run m = .ok (n, r)) :
    ∃ k, c.aim m = .ok k ∧ k.checkHashable = .ok () ∧ Edit m k c n r := by
  cases c with
  | assert fact =>
    simp only [Change.run, assert, bind_eq_ok, hasKey_eq_ok] at h
    obtain ⟨k, hkey, b, ⟨hhash, hb⟩, h⟩ := h
    refine ⟨k, hkey, hhash, ?_⟩
    cases b with
    | true =>
      cases h
      exact .known (hb.mp rfl)
    | false =>
      have hnew : ¬ m.Holds k := fun hk => Bool.false_ne_true (hb.mpr hk)
      have hput := Assoc.insert_of_not_contains (v := fact)
        (Bool.eq_false_iff.mpr fun hc => hnew (holds_iff.mpr hc))
      cases h
      rw [put, hput]
      exact .asserted hnew
  | upsert fact =>
    simp only [Change.run, upsert, bind_eq_ok, get_eq_ok] at h
    obtain ⟨k, hkey, o, ⟨hhash, ho⟩, h⟩ := h
    refine ⟨k, hkey, hhash, ?_⟩
    cases o with
    | none =>
      have hnew : ¬ m.Holds k := lookup_eq_none_iff.mp ho.symm
      have hput := Assoc.insert_of_not_contains (v := fact)
        (Bool.eq_false_iff.mpr fun hc => hnew (holds_iff.mpr hc))
      cases h
      rw [put, hput]
      exact .inserted hnew
    | some old =>
      obtain ⟨as, k', bs, hsplit, hk, has⟩ := Assoc.split_of_lookup ho.symm
      by_cases heq : (old == fact) = true
      · simp only [heq, if_true] at h
        cases h
        exact .equal hsplit hk heq
      · have hput : Assoc.insert k fact (as ++ (k', old) :: bs) = as ++ (k', fact) :: bs :=
          Assoc.insert_split hk has
        simp only [heq] at h
        cases h
        rw [put, hsplit, hput]
        exact .replaced hsplit hk (Bool.eq_false_iff.mpr heq)
  | retract target =>
    simp only [Change.run, retract, bind_eq_ok, hasKey_eq_ok] at h
    obtain ⟨k, haim, b, ⟨hhash, hb⟩, h⟩ := h
    refine ⟨k, haim, hhash, ?_⟩
    cases b with
    | false =>
      cases h
      exact .absent fun hk => Bool.false_ne_true (hb.mpr hk)
    | true =>
      cases ho : Assoc.lookup k m.entries with
      | none => exact absurd (hb.mp rfl) (lookup_eq_none_iff.mp ho)
      | some old =>
        obtain ⟨as, k', bs, hsplit, hk, has⟩ := Assoc.split_of_lookup ho
        have herase : Assoc.erase k (as ++ (k', old) :: bs) = as ++ bs := Assoc.erase_split hk has
        cases h
        rw [hsplit, herase]
        exact .removed hsplit hk

/-- A change returns if the identity it is aimed at can be found and hashed. -/
theorem run_returns (haim : c.aim m = .ok k) (hhash : k.checkHashable = .ok ()) :
    ∃ n r, c.run m = .ok (n, r) := by
  have hkey : m.hasKey k = .ok (Assoc.contains k m.entries) :=
    hasKey_eq_ok.mpr ⟨hhash, holds_iff.symm⟩
  have hget : m.get k = .ok (Assoc.lookup k m.entries) := get_eq_ok.mpr ⟨hhash, rfl⟩
  cases c with
  | assert fact =>
    simp only [Change.run, assert, bind_eq_ok]
    cases hc : Assoc.contains k m.entries with
    | true => exact ⟨m, none, k, haim, true, by rw [hkey, hc], rfl⟩
    | false => exact ⟨m.put k fact, some k, k, haim, false, by rw [hkey, hc], rfl⟩
  | upsert fact =>
    simp only [Change.run, upsert, bind_eq_ok]
    cases hl : Assoc.lookup k m.entries with
    | none => exact ⟨m.put k fact, some k, k, haim, none, by rw [hget, hl], rfl⟩
    | some old =>
      by_cases heq : (old == fact) = true
      · exact ⟨m, none, k, haim, some old, by rw [hget, hl], if_pos heq⟩
      · exact ⟨m.put k fact, some k, k, haim, some old, by rw [hget, hl], if_neg heq⟩
  | retract target =>
    simp only [Change.run, retract, bind_eq_ok]
    cases hc : Assoc.contains k m.entries with
    | true => exact ⟨_, some k, k, haim, true, by rw [hkey, hc], rfl⟩
    | false => exact ⟨m, none, k, haim, false, by rw [hkey, hc], rfl⟩

end Memory

end RuleEngine
