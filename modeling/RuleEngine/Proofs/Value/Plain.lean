import RuleEngine.Proofs.Double.Magnitude
import RuleEngine.Proofs.Value.Overlong
import RuleEngine.Proofs.Value.WellFormed

/-!
# Plain data

Plain data is what a document can hold: scalars, and lists, tuples and maps with text keys of plain
data. Equal plain data may be made of different numbers, of `1`, `1.0` and `true` for one, but not
of numbers of which only some can be written.

* `IsPlain.matching`: equal maps of plain data have the same keys, in any order, with equal values.
* `IsPlain.isOverlong_congr`: of equal plain data both can be written or neither.
-/

namespace RuleEngine.Value

variable {u v : Value} {xs : List Value} {es fs : List (Value × Value)}

/-- Whether the value is nothing, a truth value, a number or a text. -/
def IsScalar : Value → Prop
  | .none | .bool _ | .int _ | .text _ => True
  | .float x => x ≠ .nan
  | _ => False

/-- Data made of scalars, sequences and maps with text keys. -/
inductive IsPlain : Value → Prop where
  | scalar {v : Value} (scalar : v.IsScalar) : IsPlain v
  | list {xs : List Value} (items : ∀ x ∈ xs, IsPlain x) : IsPlain (.list xs)
  | tuple {xs : List Value} (items : ∀ x ∈ xs, IsPlain x) : IsPlain (.tuple xs)
  | map {es : List (Value × Value)} (keys : ∀ e ∈ es, ∃ s, e.1 = .text s)
      (values : ∀ e ∈ es, IsPlain e.2) (distinct : es.Pairwise fun e f => e.1 ≠ f.1) :
      IsPlain (.map es)

/-! ## Scalars -/

theorem text_eqv {s : String} (h : (text s).eqv v = true) : v.text? = some s := by
  have ha : v.atom? = some (.text s) := ((eqv_of_atom rfl).mp h).2
  cases v with
  | text t => simpa [atom?, text?] using ha
  | member m =>
    obtain ⟨e, n, p⟩ := m
    cases p <;> simp_all [atom?, text?]
  | _ => simp [atom?] at ha

theorem IsScalar.exists_atom (h : v.IsScalar) : ∃ a, v.atom? = some a ∧ a ≠ .number .nan := by
  cases v with
  | none | bool | int | text => exact ⟨_, rfl, by simp⟩
  | float x =>
    refine ⟨_, rfl, fun hn => h ?_⟩
    cases x with
    | nan => rfl
    | infinite s => cases hn
    | finite s e f => exact absurd (Atom.number.inj hn) (Number.ofUnits_ne_nan _)
  | _ => cases h

theorem IsScalar.isOverlong_iff (h : v.IsScalar) {a : Atom} (ha : v.atom? = some a) :
    v.isOverlong = true ↔ ∃ n, a = .number (.whole n) ∧ writtenBound ≤ n.natAbs := by
  cases v with
  | none | text =>
    cases ha
    refine iff_of_false Bool.false_ne_true ?_
    rintro ⟨n, hn, -⟩
    cases hn
  | bool b =>
    cases ha
    refine iff_of_false Bool.false_ne_true ?_
    rintro ⟨n, hn, hle⟩
    have hone : 1 < writtenBound := by decide +kernel
    cases hn
    cases b <;> simp at hle <;> omega
  | int n =>
    cases ha
    simp [isOverlong, isOverlongInteger_iff]
  | float x =>
    cases ha
    refine iff_of_false Bool.false_ne_true ?_
    rintro ⟨n, hn, hle⟩
    exact Nat.not_le_of_lt (Double.whole_lt (Atom.number.inj hn)) hle
  | _ => cases h

/-! ## Parts of plain data -/

theorem IsPlain.of_list (h : (Value.list xs).IsPlain) : ∀ x ∈ xs, x.IsPlain := by
  cases h with
  | scalar hs => cases hs
  | list hxs => exact hxs

theorem IsPlain.of_tuple (h : (Value.tuple xs).IsPlain) : ∀ x ∈ xs, x.IsPlain := by
  cases h with
  | scalar hs => cases hs
  | tuple hxs => exact hxs

theorem IsPlain.of_map (h : (Value.map es).IsPlain) : (∀ e ∈ es, ∃ s, e.1 = .text s) ∧
    (∀ e ∈ es, e.2.IsPlain) ∧ es.Pairwise fun e f => e.1 ≠ f.1 := by
  cases h with
  | scalar hs => cases hs
  | map hk hv hd => exact ⟨hk, hv, hd⟩

theorem IsPlain.of_atom {a : Atom} (h : v.IsPlain) (ha : v.atom? = some a) : v.IsScalar := by
  cases h with
  | scalar hs => exact hs
  | _ => cases ha

theorem text_keys_distinct (hk : ∀ e ∈ es, ∃ s, e.1 = .text s)
    (hd : es.Pairwise fun e f => e.1 ≠ f.1) : es.Pairwise fun e f => eqv e.1 f.1 = false := by
  refine hd.imp_of_mem fun he hf hne => Bool.eq_false_iff.mpr fun heq => hne ?_
  obtain ⟨s, hs⟩ := hk _ he
  obtain ⟨t, ht⟩ := hk _ hf
  rw [hs, ht] at heq ⊢
  exact congrArg text (Option.some.inj (text_eqv heq)).symm

theorem IsPlain.proper (h : v.IsPlain) : v.Proper := by
  induction h with
  | scalar hs =>
    obtain ⟨a, ha, hn⟩ := hs.exists_atom
    exact .atom ha hn
  | list _ ih => exact .list ih
  | tuple _ ih => exact .tuple ih
  | map hk _ hd ih =>
    refine .map (fun e he => ?_) ih (text_keys_distinct hk hd)
    obtain ⟨s, hs⟩ := hk e he
    exact hs ▸ proper_text s

/-! ## Equal plain data -/

/-- Equal maps of plain data have the same keys, in any order, with equal values. -/
theorem IsPlain.matching (he : (Value.map es).IsPlain) (hf : (Value.map fs).IsPlain)
    (h : (Value.map es).eqv (.map fs) = true) :
    ∃ gs, gs.Perm fs ∧ List.Forall₂ (fun e g => e.1 = g.1 ∧ eqv e.2 g.2 = true) es gs := by
  obtain ⟨hke, -, hd⟩ := he.of_map
  obtain ⟨hkf, -, -⟩ := hf.of_map
  have hsteady : ∀ e ∈ es, e.1.IsSteady := fun e he => by
    obtain ⟨s, hs⟩ := hke e he
    exact hs ▸ (proper_text s).isSteady
  obtain ⟨gs, hperm, hgs⟩ := entries_matching hsteady (text_keys_distinct hke hd) h
  refine ⟨gs, hperm, forall₂_of_mem hgs fun e he g hg hr => ⟨?_, hr.2⟩⟩
  obtain ⟨s, hs⟩ := hke e he
  obtain ⟨t, ht⟩ := hkf g (hperm.mem_iff.mp hg)
  have heq := hr.1
  rw [hs, ht] at heq ⊢
  exact congrArg text (Option.some.inj (text_eqv heq)).symm

theorem IsPlain.isOverlong_congr (hu : u.IsPlain) (hv : v.IsPlain) (h : u.eqv v = true) :
    u.isOverlong = v.isOverlong := by
  induction hu generalizing v with
  | scalar hs =>
    obtain ⟨a, ha, -⟩ := hs.exists_atom
    have hva : v.atom? = some a := ((eqv_of_atom ha).mp h).2
    rw [Bool.eq_iff_iff, hs.isOverlong_iff ha, (hv.of_atom hva).isOverlong_iff hva]
  | list _ ih =>
    obtain ⟨ys, rfl, hys⟩ := eqv_list.mp h
    rw [isOverlong, isOverlong, isOverlongAny_eq, isOverlongAny_eq]
    exact any_congr_forall₂ (forall₂_of_mem hys fun x hx y hy => ih x hx (hv.of_list y hy))
  | tuple _ ih =>
    obtain ⟨ys, rfl, hys⟩ := eqv_tuple.mp h
    rw [isOverlong, isOverlong, isOverlongAny_eq, isOverlongAny_eq]
    exact any_congr_forall₂ (forall₂_of_mem hys fun x hx y hy => ih x hx (hv.of_tuple y hy))
  | @map es hk hval hd ih =>
    obtain ⟨fs, rfl, -⟩ := eqv_map.mp h
    obtain ⟨gs, hperm, hgs⟩ := (IsPlain.map hk hval hd).matching hv h
    rw [isOverlong, isOverlong, isOverlongEntry_eq, isOverlongEntry_eq, ← hperm.any_eq]
    refine any_congr_forall₂ (forall₂_of_mem hgs fun e he g hg hr => ?_)
    rw [hr.1, ih e he (hv.of_map.2.1 g (hperm.mem_iff.mp hg)) hr.2]

end RuleEngine.Value
