import RuleEngine.Document.Spec
import RuleEngine.Document.Compile
import RuleEngine.Proofs.Schema.Record
import RuleEngine.Proofs.Value.WellFormed

/-!
# Well-formed documents

A document holds values as a program can hold them (`Document.WellFormed`). What is read from it
holds some of these values, and so it is well-formed again (`parse_wellFormed`): the templates of
effects and the terms of fields are taken as they stand, and everything else is read into texts,
numbers and flags.
-/

namespace RuleEngine

variable {v : Value} {es : List (Value × Value)}

/-- The field terms of the pattern are values as they can be built. -/
def PatternSpec.WellFormed (p : PatternSpec) : Prop := ∀ e ∈ p.fields, e.2.WellFormed

/-- The field terms and the templates of the rule are values as they can be built. -/
structure RuleSpec.WellFormed (r : RuleSpec) : Prop where
  patterns : ∀ p ∈ r.patterns, p.WellFormed
  effects : ∀ e ∈ r.effects, e.template.WellFormed

/-- The values in the document are values as they can be built. -/
inductive Document.WellFormed : Document → Prop where
  | data {v : Value} (value : v.WellFormed) : WellFormed (.data v)
  | book {b : RuleBook} (rules : ∀ r ∈ b.rules, r.WellFormed) : WellFormed (.book b)
  | rule {r : RuleSpec} (rule : r.WellFormed) : WellFormed (.rule r)
  | pattern {p : PatternSpec} (pattern : p.WellFormed) : WellFormed (.pattern p)
  | list {ds : List Document} (items : ∀ d ∈ ds, WellFormed d) : WellFormed (.list ds)
  | tuple {ds : List Document} (items : ∀ d ∈ ds, WellFormed d) : WellFormed (.tuple ds)
  | record {ds : List Document} (items : ∀ d ∈ ds, WellFormed d) : WellFormed (.record ds)

namespace Value

theorem WellFormed.of_lookup {k : Value} (h : (Value.map es).WellFormed)
    (hl : Assoc.lookup k es = some v) : v.WellFormed := by
  obtain ⟨e, he, -, rfl⟩ := Assoc.mem_of_lookup hl
  exact h.of_map.2.1 e he

theorem WellFormed.of_items {xs : List Value} (h : v.WellFormed) (hxs : Schema.items? v = some xs) :
    ∀ x ∈ xs, x.WellFormed := by
  cases v with
  | list =>
    cases hxs
    exact h.of_list
  | tuple =>
    cases hxs
    exact h.of_tuple
  | set | frozenSet =>
    cases hxs
    exact fun x hx => (h.of_members rfl x hx).1
  | _ => cases hxs

theorem WellFormed.of_sequence {xs : List Value} (h : v.WellFormed)
    (hxs : Condition.sequence? v = some xs) : ∀ x ∈ xs, x.WellFormed := by
  cases v with
  | list =>
    cases hxs
    exact h.of_list
  | tuple =>
    cases hxs
    exact h.of_tuple
  | buffer bs =>
    cases hxs
    refine List.forall_mem_map.mpr ?_
    intro b _
    exact .atom rfl (by simp)
  | _ => cases hxs

end Value

namespace Schema

variable {α : Type} {read : Value → Checked α} {P : α → Prop} {name : String} {a : α} {as : List α}

/-- What the reading of well-formed values ensures, the reading of a required field does. -/
theorem required_ensures (hw : (Value.map es).WellFormed)
    (hread : ∀ v a, v.WellFormed → read v = .ok a → P a) (h : required name read es = .ok a) :
    P a := by
  obtain ⟨v, hl, hv⟩ := required_eq_ok.mp h
  exact hread v a (hw.of_lookup hl) hv

/-- What the reading of well-formed values ensures, and the default has, the reading of a field with
a default ensures. -/
theorem defaulted_ensures {default : α} (hw : (Value.map es).WellFormed)
    (hread : ∀ v a, v.WellFormed → read v = .ok a → P a) (hdefault : P default)
    (h : defaulted name read default es = .ok a) : P a := by
  rcases defaulted_eq_ok.mp h with ⟨v, hl, hv⟩ | ⟨-, rfl⟩
  · exact hread v a (hw.of_lookup hl) hv
  · exact hdefault

/-- What the reading of well-formed values ensures, the reading of a list of them does of all
items. -/
theorem list_ensures (hw : v.WellFormed) (hread : ∀ v a, v.WellFormed → read v = .ok a → P a)
    (h : list read v = .ok as) : ∀ a ∈ as, P a := by
  obtain ⟨xs, hxs, hall⟩ := list_eq_ok.mp h
  intro a ha
  obtain ⟨x, hx, hxa⟩ := exists_of_forall₂ hall.flip ha
  exact hread x a (hw.of_items hxs x hx) hxa

theorem textMap_ensures (hw : v.WellFormed) (h : textMap v = .ok es) :
    ∀ e ∈ es, e.2.WellFormed := by
  obtain ⟨fs, rfl, hvalues⟩ := of_textMap h
  intro e he
  obtain ⟨f, hf, hv⟩ := hvalues e he
  rw [← hv]
  exact hw.of_map.2.1 f hf

end Schema

namespace Document

/-! ## Reading rules -/

theorem patternSpec_wellFormed {p : PatternSpec} (hw : v.WellFormed) (h : patternSpec v = .ok p) :
    p.WellFormed := by
  obtain ⟨es, rfl, hread⟩ := Schema.of_record h
  simp only [Checked.seq_eq_ok, Checked.map_eq_ok] at hread
  obtain ⟨_, _, ⟨_, _, ⟨_, fields, ⟨_, -, rfl⟩, hfields, rfl⟩, -, rfl⟩, -, rfl⟩ := hread
  exact Schema.defaulted_ensures (P := fun fs => ∀ e ∈ fs, e.2.WellFormed) hw
    (fun _ _ => Schema.textMap_ensures) nofun hfields

theorem effectParts_template {op : String} {parts : List String} {read : Checked EffectSpec}
    {e : EffectSpec} (h : effectParts op es = some (parts, read)) (he : read = .ok e) :
    e.template = .none ∨ (∃ s, e.template = .text s) ∨
      ∃ k, Assoc.lookup k es = some e.template := by
  unfold effectParts at h
  split at h
  case h_1 | h_2 | h_3 =>
    cases h
    obtain ⟨_, hfact, rfl⟩ := Checked.map_eq_ok.mp he
    obtain ⟨w, hl, hw⟩ := Schema.required_eq_ok.mp hfact
    cases hw
    exact .inr (.inr ⟨_, hl⟩)
  case h_4 | h_6 =>
    cases h
    simp only [Checked.seq_eq_ok, Checked.map_eq_ok] at he
    obtain ⟨_, w, ⟨_, -, rfl⟩, hpart, rfl⟩ := he
    rcases Schema.defaulted_eq_ok.mp hpart with ⟨w, hl, hw⟩ | ⟨-, rfl⟩
    · cases hw
      exact .inr (.inr ⟨_, hl⟩)
    · exact .inl rfl
  · cases h
    simp only [Checked.seq_eq_ok, Checked.map_eq_ok] at he
    obtain ⟨_, message, ⟨_, -, rfl⟩, -, rfl⟩ := he
    exact .inr (.inl ⟨message, rfl⟩)
  · cases h

/-- The template of a declared effect is a part of the declaration as it stands, unless it is left
out or a text. -/
theorem effectSpec_template {e : EffectSpec} (h : effectSpec v = .ok e) :
    e.template = .none ∨ (∃ s, e.template = .text s) ∨
      ∃ es k, v = .map es ∧ Assoc.lookup k es = some e.template := by
  unfold effectSpec at h
  split at h
  · rename_i es
    split at h
    · cases h
    · split at h
      · cases h
      · split at h
        · cases h
        · rename_i hparts
          have hread := Checked.of_withFlaws (Checked.under_eq_ok.mp h)
          refine (effectParts_template hparts hread).imp_right (.imp_right ?_)
          intro ⟨k, hl⟩
          exact ⟨es, k, rfl, hl⟩
  · split at h <;> cases h

theorem effectSpec_wellFormed {e : EffectSpec} (hw : v.WellFormed) (h : effectSpec v = .ok e) :
    e.template.WellFormed := by
  rcases effectSpec_template h with hnone | ⟨s, hs⟩ | ⟨es, k, rfl, hl⟩
  · rw [hnone]
    exact .atom rfl (by simp)
  · rw [hs]
    exact Value.wellFormed_text s
  · exact hw.of_lookup hl

theorem ruleSpec_wellFormed {r : RuleSpec} (hw : v.WellFormed) (h : ruleSpec v = .ok r) :
    r.WellFormed := by
  obtain ⟨es, rfl, hread⟩ := Schema.of_record h
  simp only [Checked.seq_eq_ok, Checked.map_eq_ok] at hread
  obtain ⟨_, _, ⟨_, _, ⟨_, _, ⟨_, _, ⟨_, effects, ⟨_, patterns, ⟨_, -, rfl⟩, hpatterns, rfl⟩,
    heffects, rfl⟩, -, rfl⟩, -, rfl⟩, -, rfl⟩, -, rfl⟩ := hread
  constructor
  · refine Schema.required_ensures (P := fun ps => ∀ p ∈ ps, p.WellFormed) hw ?_ hpatterns
    intro v ps hv hps
    exact Schema.list_ensures hv (fun _ _ => patternSpec_wellFormed) (Schema.of_fullList hps)
  · refine Schema.defaulted_ensures (P := fun es => ∀ e ∈ es, e.template.WellFormed) hw ?_ nofun
      heffects
    intro v es hv hes
    exact Schema.list_ensures hv (fun _ _ => effectSpec_wellFormed) hes

theorem ruleBook_wellFormed {b : RuleBook} (hw : v.WellFormed) (h : ruleBook v = .ok b) :
    ∀ r ∈ b.rules, r.WellFormed := by
  obtain ⟨es, rfl, hread⟩ := Schema.of_record h
  obtain ⟨rules, hrules, rfl⟩ := Checked.map_eq_ok.mp hread
  refine Schema.defaulted_ensures (P := fun rs => ∀ r ∈ rs, r.WellFormed) hw ?_ nofun hrules
  intro v rs hv hrs
  exact Schema.list_ensures hv (fun _ _ => ruleSpec_wellFormed) hrs

/-! ## Reading documents -/

theorem item_wellFormed {d : Document} {r : RuleSpec} (hw : d.WellFormed) (h : d.item = .ok r) :
    r.WellFormed := by
  cases hw with
  | data hv => exact ruleSpec_wellFormed hv h
  | rule hr =>
    cases h
    exact hr
  | book | pattern | list | tuple | record => cases h

theorem ofItems_wellFormed {ds : List Document} {b : RuleBook} (hw : ∀ d ∈ ds, d.WellFormed)
    (h : ofItems ds = .ok b) : ∀ r ∈ b.rules, r.WellFormed := by
  obtain ⟨rules, hrules, rfl⟩ := Checked.map_eq_ok.mp (Checked.toExcept_eq_ok.mp h)
  have hall := Checked.each_eq_ok.mp (Checked.under_eq_ok.mp hrules)
  intro r hr
  obtain ⟨d, hd, hdr⟩ := exists_of_forall₂ hall.flip hr
  exact item_wellFormed (hw d hd) hdr

theorem ofValue_wellFormed {b : RuleBook} (hw : v.WellFormed) (h : ofValue v = .ok b) :
    ∀ r ∈ b.rules, r.WellFormed := by
  unfold ofValue at h
  split at h
  · split at h
    · exact ruleBook_wellFormed hw (Checked.toExcept_eq_ok.mp h)
    · obtain ⟨r, hr, rfl⟩ := map_eq_ok.mp h
      exact List.forall_mem_singleton.mpr (ruleSpec_wellFormed hw (Checked.toExcept_eq_ok.mp hr))
  · split at h
    · rename_i xs hxs
      refine ofItems_wellFormed (List.forall_mem_map.mpr ?_) h
      intro x hx
      exact .data (hw.of_sequence hxs x hx)
    · cases h

theorem parse_wellFormed {d : Document} {b : RuleBook} (hw : d.WellFormed) (h : d.parse = .ok b) :
    ∀ r ∈ b.rules, r.WellFormed := by
  cases hw with
  | data hv => exact ofValue_wellFormed hv h
  | book hb =>
    cases h
    exact hb
  | rule hr =>
    cases h
    exact List.forall_mem_singleton.mpr hr
  | pattern => cases h
  | list hds | tuple hds | record hds => exact ofItems_wellFormed hds h

end Document

end RuleEngine
