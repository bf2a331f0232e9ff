import RuleEngine.Fact.Key
import RuleEngine.Proofs.Binding
import RuleEngine.Proofs.Traced
import RuleEngine.Proofs.Value.WellFormed

/-!
# Identities are proper

An identity is compared with others for as long as its fact is in memory, so its equality must be
an equivalence. It is made of a text, of a digest or of the stand-in of an id; the id is a part of
the fact (`id_proper`), and stand-ins of proper values are proper.

* `key_proper`: the identity of a proper fact is proper.
-/

namespace RuleEngine

namespace Value

variable {v w : Value}

theorem attribute_of_ok {n : String} (h : v.attributeOf n = .ok (some w)) :
    v.attribute? n = some w := by
  unfold attributeOf at h
  split at h
  · split at h
    · cases h
    · exact Except.ok.inj h
  · exact Except.ok.inj h

/-- What can be called is no id, so only the data of a value counts. -/
theorem content_of_attribute (h : v.attribute? "id" = some w)
    (hc : w.isCallable = false) : v.content? "id" = some w := by
  unfold attribute? at h
  cases hcont : v.content? "id" with
  | some u =>
    rw [hcont] at h
    exact h
  | none =>
    have hdesc : v.description? "id" = Option.none := by
      unfold description?
      cases v.state? <;> rfl
    rw [hcont, Option.none_or, hdesc] at h
    split at h
    · cases h
      cases hc
    · cases h

theorem member_proper (m : Member) : (member m).Proper ∧ (member m).WellFormed := by
  obtain ⟨e, n, p⟩ := m
  cases p <;> exact ⟨.atom rfl (by simp), .atom rfl (by simp)⟩

theorem name_proper (n : Name) : n.value.Proper := by
  unfold Name.value
  cases n.member with
  | some m => exact (member_proper m).1
  | none => exact proper_text n.text

theorem member_of_enumerationPart {e : Enumeration} (h : enumerationPart e "id" = some w) :
    ∃ m, w = member m := by
  unfold enumerationPart at h
  cases hm : e.member? "id" with
  | some m =>
    rw [hm] at h
    cases h
    exact ⟨m, rfl⟩
  | none =>
    rw [hm] at h
    cases h

theorem enumerationPart_proper {e : Enumeration} (h : enumerationPart e "id" = some w) :
    w.Proper ∧ w.WellFormed := by
  obtain ⟨m, rfl⟩ := member_of_enumerationPart h
  exact member_proper m

theorem memberPart_id {m : Member} (h : memberPart m "id" = some w) :
    enumerationPart m.enumeration "id" = some w := by
  have hnumber : ∀ n, integerPart n "id" = Option.none := fun n => by simp [integerPart, numberPart]
  simp only [memberPart] at h
  cases hp : enumerationPart m.enumeration "id" with
  | some u => simpa [hp] using h
  | none => cases hpay : m.payload <;> simp [hp, hpay, hnumber] at h

theorem classPart_id {c : ClassInfo} (h : classPart c "id" = some w) :
    enumerationPart c.enumeration "id" = some w := by
  change (if c.isEnumeration then enumerationPart c.enumeration "id" else Option.none) = some w at h
  split at h
  · exact h
  · cases h

theorem content_proper (hp : v.Proper) (hw : v.WellFormed) (h : v.content? "id" = some w) :
    w.Proper ∧ w.WellFormed := by
  cases v with
  | object c fs =>
    obtain ⟨as, bs, hfs, -⟩ := List.lookup_eq_some_iff.mp h
    have hmem : ("id", w) ∈ fs := by simp [hfs]
    exact ⟨hp.of_object _ hmem, hw.of_object _ hmem⟩
  | member m => exact enumerationPart_proper (memberPart_id h)
  | cls c => exact enumerationPart_proper (classPart_id h)
  | key k r b => cases h
  | method o n => cases h
  | _ => simp [content?, integerPart, numberPart] at h

end Value

theorem FactKey.ofId_proper {kind id : Value} {k : FactKey} (hk : kind.Proper) (hp : id.Proper)
    (hw : id.WellFormed) (h : FactKey.ofId kind id = .ok k) : k.value.Proper := by
  simp only [FactKey.ofId, bind_eq_ok] at h
  obtain ⟨_, -, h⟩ := h
  cases h
  exact .key hk (hp.freeze hw) (Value.proper_bool false)

namespace Fact

variable {fact : Value} {k : FactKey}

/-- A sequence has no id, so it is known by its content. -/
theorem key_tuple (xs : List Value) : key (.tuple xs) = (do
    (Value.tuple xs).checkContent
    return ⟨.text "tuple", .text (Value.tuple xs).digest, .bool true⟩) := rfl

theorem none_proper : Value.none.Proper ∧ Value.none.WellFormed :=
  ⟨.atom rfl (by simp), .atom rfl (by simp)⟩

theorem id_proper {i : Value} (hp : fact.Proper) (hw : fact.WellFormed) (h : id fact = .ok i) :
    i.Proper ∧ i.WellFormed := by
  unfold id at h
  split at h
  · rename_i es
    cases h
    cases hl : Assoc.lookup (.text "id") es with
    | none => simpa [Value.entry?, Value.entries?, hl] using none_proper
    | some v =>
      obtain ⟨e, he, -, rfl⟩ := Assoc.mem_of_lookup hl
      have hv := (Binding.proper_iff.mp hp).2.1 e he
      simpa [Value.entry?, Value.entries?, hl] using ⟨hv, hw.of_map.2.1 e he⟩
  · simp only [bind_eq_ok] at h
    obtain ⟨o, ho, h⟩ := h
    cases o with
    | none =>
      cases h
      exact none_proper
    | some v =>
      have hattr := Value.attribute_of_ok ho
      have hi : (if v.isCallable then .none else v) = i := pure_eq_ok.mp h
      by_cases hc : v.isCallable = true
      · rw [← hi, if_pos hc]
        exact none_proper
      · rw [← hi, if_neg hc]
        have hdata := Value.content_of_attribute hattr (Bool.eq_false_iff.mpr hc)
        exact Value.content_proper hp hw hdata

theorem key_proper (hp : fact.Proper) (hw : fact.WellFormed) (h : key fact = .ok k) :
    k.value.Proper := by
  unfold key at h
  split at h
  · cases h
    exact hp
  · simp only [bind_eq_ok] at h
    obtain ⟨_, -, i, hi, h⟩ := h
    obtain ⟨hproper, hwell⟩ := id_proper hp hw hi
    split at h
    · simp only [bind_eq_ok] at h
      obtain ⟨_, -, h⟩ := h
      cases h
      exact .key (Value.proper_text _) (Value.proper_text _) (Value.proper_bool true)
    · exact FactKey.ofId_proper (Value.proper_text _) hproper hwell h

end Fact

end RuleEngine
