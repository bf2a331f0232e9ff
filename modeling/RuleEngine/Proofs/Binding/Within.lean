import RuleEngine.Proofs.Binding

/-!
# Bindings ordered by what they bind

One binding is within another if the other binds everything it binds, to equal values. Two bindings
are equal as maps exactly if each is within the other (`eqv_iff_within`). In this order the merge of
two bindings that agree is their least upper bound (`within_merge_left`, `within_merge_right`,
`merge_within`), and they agree exactly if they have an upper bound at all (`agree_iff_within`). So
whatever is said of unifying in terms of upper bounds does not depend on the sides, on the grouping,
or on which of several equal values a binding holds.

* `agree_congr`, `merge_congr`: unifying equal bindings with a third one.
* `agree_merge_comm`, `merge_merge_comm`: unifying a binding with two others, in either order.
-/

namespace RuleEngine.Binding

variable {b b' c d : Binding}

/-- Everything the first binding binds, the second one binds to an equal value. -/
def Within (b c : Binding) : Prop :=
  ∀ e ∈ b, ∃ f ∈ c, (e.1 == f.1) = true ∧ (e.2 == f.2) = true

theorem Within.refl (hb : b.Proper) : Within b b := fun e he =>
  ⟨e, he, (hb.key_isSteady he).refl, (hb.value_isSteady he).refl⟩

theorem Within.trans (hb : b.Proper) (h : Within b c) (k : Within c d) : Within b d := by
  intro e he
  obtain ⟨f, hf, hkey, hvalue⟩ := h e he
  obtain ⟨g, hg, hkey', hvalue'⟩ := k f hf
  exact ⟨g, hg, ((hb.key_isSteady he).congr hkey g.1).symm.trans hkey',
    ((hb.value_isSteady he).congr hvalue g.2).symm.trans hvalue'⟩

/-! ## Equality -/

/-- No two variables of a binding are one variable of a binding it is within. -/
theorem within_own (hb : b.Proper) :
    b.Pairwise fun e e' => ∀ f : Value × Value, (e.1 == f.1) = true ∧ (e.2 == f.2) = true →
      ¬ ((e'.1 == f.1) = true ∧ (e'.2 == f.2) = true) := by
  refine (proper_iff.mp hb).2.2.imp_of_mem ?_
  rintro e e' he he' hne f ⟨hkey, -⟩ ⟨hkey', -⟩
  have heq := (hb.key_isSteady he).join (hb.key_isSteady he') hkey hkey'
  exact absurd (hne.symm.trans heq) Bool.false_ne_true

theorem Within.length_le (hb : b.Proper) (h : Within b c) : b.length ≤ c.length := by
  by_contra hlonger
  obtain ⟨zs, hperm, hzs⟩ := exists_matching (by omega) (within_own hb) h
  have hsame := hzs.length_eq.trans hperm.length_eq
  omega

/-- Bindings are equal as maps exactly if each is within the other. -/
theorem eqv_iff_within (hb : b.Proper) (hc : c.Proper) :
    (Value.map b == Value.map c) = true ↔ Within b c ∧ Within c b := by
  have hkeys : ∀ e ∈ b, e.1.IsSteady := fun e he => hb.key_isSteady he
  have hdistinct := (proper_iff.mp hb).2.2
  constructor
  · intro h
    obtain ⟨_, ⟨⟩, hlength, hfinds⟩ := Value.eqv_map.mp h
    refine ⟨fun e he => ?_, fun f hf => ?_⟩
    · obtain ⟨f, hf, hef⟩ := hfinds e he
      exact ⟨f, hf, hef.key, hef.2⟩
    · obtain ⟨e, he, hef⟩ := Value.entries_partner hkeys hdistinct hlength hfinds f hf
      exact ⟨e, he, (hkeys e he).symm hef.key, (hb.value_isSteady he).symm hef.2⟩
  · rintro ⟨hbc, hcb⟩
    have hlength := Nat.le_antisymm (hbc.length_le hb) (hcb.length_le hc)
    refine Value.eqv_map.mpr ⟨c, rfl, hlength, fun e he => ?_⟩
    obtain ⟨f, hf, hkey, hvalue⟩ := hbc e he
    exact ⟨f, hf, Value.find_of_mem (fun _ => hc.key_isSteady) (fun _ => hc.value_isSteady)
      (proper_iff.mp hc).2.2 (hkeys e he) hf hkey, hvalue⟩

/-! ## Least upper bounds -/

theorem within_merge_left (hb : b.Proper) : Within b (merge b c) := fun e he =>
  ⟨e, List.mem_append_left _ he, (hb.key_isSteady he).refl, (hb.value_isSteady he).refl⟩

theorem within_merge_right (hb : b.Proper) (hc : c.Proper) (h : Agree b c) :
    Within c (merge b c) := by
  intro f hf
  by_cases hbound : Assoc.contains f.1 b
  · obtain ⟨e, he, hkey⟩ := Assoc.contains_iff.mp hbound
    have hvalue := h e he f hf hkey
    exact ⟨e, List.mem_append_left _ he, (hb.key_isSteady he).symm hkey,
      (hb.value_isSteady he).symm hvalue⟩
  · refine ⟨f, List.mem_append_right _ (List.mem_filter.mpr ⟨hf, by simpa using hbound⟩), ?_, ?_⟩
    · exact (hc.key_isSteady hf).refl
    · exact (hc.value_isSteady hf).refl

theorem merge_within (hb : Within b d) (hc : Within c d) : Within (merge b c) d := by
  intro e he
  rcases List.mem_append.mp he with he | he
  · exact hb e he
  · exact hc e (List.mem_filter.mp he).1

/-- Bindings agree exactly if both are within some binding. -/
theorem agree_iff_within (hb : b.Proper) (hc : c.Proper) :
    Agree b c ↔ ∃ d : Binding, d.Proper ∧ Within b d ∧ Within c d := by
  constructor
  · intro h
    exact ⟨merge b c, hb.merge hc, within_merge_left hb, within_merge_right hb hc h⟩
  · rintro ⟨d, hd, hbd, hcd⟩ e he f hf hkey
    obtain ⟨g, hg, heg, heg'⟩ := hbd e he
    obtain ⟨g', hg', hfg, hfg'⟩ := hcd f hf
    -- both variables are one variable of the bound, which has one value
    have hgf : (g.1 == f.1) = true := ((hb.key_isSteady he).congr heg f.1).trans hkey
    have hgg' : (g.1 == g'.1) = true := ((proper_iff.mp hd).1 g hg).trans hgf hfg
    obtain rfl := hd.eq_of_key hg hg' hgg' (hd.key_isSteady hg').refl
    exact (hb.value_isSteady he).join (hc.value_isSteady hf) heg' hfg'

/-- A merge is within exactly what both of its parts are within. -/
theorem merge_within_iff (hb : b.Proper) (hc : c.Proper) (h : Agree b c) :
    Within (merge b c) d ↔ Within b d ∧ Within c d := by
  have hm : (merge b c).Proper := hb.merge hc
  refine ⟨fun k => ⟨?_, ?_⟩, fun k => merge_within k.1 k.2⟩
  · exact (within_merge_left hb).trans hb k
  · exact (within_merge_right hb hc h).trans hc k

/-! ## Unifying in another order, and equal bindings -/

theorem agree_congr (hb : b.Proper) (hb' : b'.Proper) (hc : c.Proper) (h : Within b' b)
    (hagree : Agree b c) : Agree b' c := by
  obtain ⟨d, hd, hbd, hcd⟩ := (agree_iff_within hb hc).mp hagree
  exact (agree_iff_within hb' hc).mpr ⟨d, hd, h.trans hb' hbd, hcd⟩

theorem merge_congr (hb' : b'.Proper) (hb : b.Proper) (hc : c.Proper) (h : Within b' b)
    (hagree : Agree b c) : Within (merge b' c) (merge b c) :=
  merge_within (h.trans hb' (within_merge_left hb)) (within_merge_right hb hc hagree)

/-- A binding agrees with a second one, and their merge with a third one, exactly if all three are
within some binding. So the second and the third one can change places. -/
theorem agree_merge_comm (hb : b.Proper) (hc : c.Proper) (hd : d.Proper)
    (hbc : Agree b c) (h : Agree (merge b c) d) : Agree b d ∧ Agree (merge b d) c := by
  obtain ⟨u, hu, hm, hdu⟩ := (agree_iff_within (hb.merge hc) hd).mp h
  obtain ⟨hbu, hcu⟩ := (merge_within_iff hb hc hbc).mp hm
  refine ⟨(agree_iff_within hb hd).mpr ⟨u, hu, hbu, hdu⟩, ?_⟩
  exact (agree_iff_within (hb.merge hd) hc).mpr ⟨u, hu, merge_within hbu hdu, hcu⟩

theorem merge_merge_comm (hb : b.Proper) (hc : c.Proper) (hd : d.Proper)
    (hbc : Agree b c) (h : Agree (merge b c) d) :
    Within (merge (merge b d) c) (merge (merge b c) d) := by
  have hbm : Within b (merge (merge b c) d) :=
    (within_merge_left hb).trans hb (within_merge_left (hb.merge hc))
  have hcm : Within c (merge (merge b c) d) :=
    (within_merge_right hb hc hbc).trans hc (within_merge_left (hb.merge hc))
  exact merge_within (merge_within hbm (within_merge_right (hb.merge hc) hd h)) hcm

end RuleEngine.Binding
