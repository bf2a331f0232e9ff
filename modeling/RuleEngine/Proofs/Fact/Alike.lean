import RuleEngine.Proofs.Memory.Undo
import RuleEngine.Proofs.Value.SameClass

/-!
# Identities of equal facts

Equality compares numbers by their value, whatever their sort, and so it does within facts. An
identity is made of texts, or of the stand-in of an id, and a text tells the sorts of numbers apart:
equal facts may have different identities.

* `id_eqv`: equal facts of one class have equal ids.
* `key_eqv_iff`: equal facts have one identity exactly if what it is made of comes out alike
  (`Fact.Alike`).
* `Alike.of_eqv`: so it does for equal facts of one class whose kinds are texts and whose ids are
  hashable or plain data, if those without an id hold the same data (`Value.SameData`).
-/

namespace RuleEngine

namespace Fact

open Value (EqvOptions)

variable {g f i j v : Value} {k l : FactKey}

/-! ## Ids and kinds of equal facts -/

/-- The id among the data of a fact: what can be called is none. -/
def idOf : Option Value → Value
  | some v => if v.isCallable then .none else v
  | none => .none

/-- What is read as the id of anything but a map is what it holds as data. -/
theorem id_of_ok (hmap : ∀ es, f ≠ .map es) (h : id f = .ok i) : i = idOf (f.content? "id") := by
  unfold id at h
  split at h
  · exact absurd rfl (hmap _)
  · simp only [bind_eq_ok] at h
    obtain ⟨o, ho, h⟩ := h
    have hattr : f.attribute? "id" = o := by
      unfold Value.attributeOf at ho
      split at ho
      · split at ho
        · cases ho
        · exact Except.ok.inj ho
      · exact Except.ok.inj ho
    have hdesc : f.description? "id" = none := by
      unfold Value.description?
      cases f.state? <;> rfl
    rw [Value.attribute?, hdesc] at hattr
    cases hcont : f.content? "id" with
    | some w =>
      rw [hcont] at hattr
      cases hattr
      exact (pure_eq_ok.mp h).symm
    | none =>
      rw [hcont, Option.none_or] at hattr
      split at hattr
      · cases hattr
        exact (pure_eq_ok.mp h).symm
      · cases hattr
        exact (pure_eq_ok.mp h).symm

theorem isCallable_of_atom {n : String} {home : Option String}
    (h : f.atom? = some (.cls n home)) : f.isCallable = true := by
  cases f with
  | cls c => rfl
  | member m =>
    obtain ⟨e, n, p⟩ := m
    cases p <;> cases h
  | _ => cases h

theorem eqv_isCallable (h : g.eqv f = true) : g.isCallable = f.isCallable := by
  refine Bool.eq_iff_iff.mpr ⟨fun hg => ?_, fun hf => ?_⟩
  · cases g with
    | method => rw [Value.eqv_method.mp h]; rfl
    | cls c => exact isCallable_of_atom ((Value.eqv_of_atom rfl).mp h).2
    | _ => cases hg
  · cases f with
    | method o n =>
      cases g with
      | method o' n' => rfl
      | member m =>
        obtain ⟨e, n, p⟩ := m
        cases p <;> cases h
      | _ => cases h
    | cls c => exact isCallable_of_atom (Value.atom_of_eqv h rfl)
    | _ => cases hf

theorem idOf_eqv {o p : Option Value} (h : EqvOptions o p) : (idOf o).eqv (idOf p) = true := by
  cases h with
  | none => rfl
  | @some v w hvw =>
    rw [idOf, idOf, eqv_isCallable hvw]
    cases w.isCallable with
    | true => rfl
    | false => exact hvw

theorem id_eqv (hp : g.Proper) (hq : f.Proper) (hclass : g.SameClass f) (heq : g.eqv f = true)
    (hg : id g = .ok i) (hf : id f = .ok j) : i.eqv j = true := by
  by_cases hmap : ∃ es, g = .map es
  · obtain ⟨es, rfl⟩ := hmap
    obtain ⟨fs, rfl, -⟩ := Value.eqv_map.mp heq
    cases hg
    cases hf
    exact (Value.entry_eqv hp hq heq "id").getD
  · have hmap' : ∀ es, f ≠ .map es := by
      rintro es rfl
      obtain ⟨fs, hfs, -⟩ := Value.eqv_map.mp (hp.symm heq)
      exact hmap ⟨fs, hfs⟩
    rw [id_of_ok (not_exists.mp hmap) hg, id_of_ok hmap' hf]
    exact idOf_eqv (Value.content_eqv hclass heq)

/-- The kind that the fact states, if it does, is a text. -/
def StatesText (f : Value) : Prop := ∀ v, statedKind? f = some v → ∃ s, v = .text s

theorem statedKind?_eq_some : statedKind? f = some v ↔ f.entry? "kind" = some v ∧ v ≠ .none := by
  unfold statedKind?
  split
  · simp_all
  · simp_all
  · rename_i k hne hk
    rw [hk]
    constructor
    · rintro ⟨⟩
      exact ⟨rfl, hne⟩
    · exact fun h => h.1

theorem eq_none_iff_of_eqv (h : g.eqv f = true) : g = .none ↔ f = .none := by
  have hatom {v : Value} (hv : v.atom? = some .none) : v = .none := by
    cases v with
    | none => rfl
    | member m =>
      obtain ⟨e, n, p⟩ := m
      cases p <;> cases hv
    | _ => cases hv
  constructor
  · rintro rfl
    exact hatom ((Value.eqv_of_atom rfl).mp h).2
  · rintro rfl
    exact hatom (Value.atom_of_eqv h rfl)

theorem statedKind?_of_eqv (hp : g.Proper) (hq : f.Proper) (heq : g.eqv f = true)
    (hg : StatesText g) (hf : StatesText f) (h : statedKind? g = some v) :
    statedKind? f = some v := by
  obtain ⟨hentry, hne⟩ := statedKind?_eq_some.mp h
  cases g with
  | map es =>
    obtain ⟨fs, rfl, -⟩ := Value.eqv_map.mp heq
    have hsame := Value.entry_eqv hp hq heq "kind"
    rw [hentry] at hsame
    generalize hother : Value.entry? (.map fs) "kind" = o at hsame
    cases hsame with
    | @some _ w hvw =>
      have hw := statedKind?_eq_some.mpr ⟨hother, fun hw => hne ((eq_none_iff_of_eqv hvw).mpr hw)⟩
      obtain ⟨s, rfl⟩ := hg v h
      obtain ⟨t, rfl⟩ := hf w hw
      rw [Value.eqv_text_iff.mp hvw]
      exact hw
  | _ => cases hentry

/-- Equal facts of one class have one kind, if the kinds that they state are texts. -/
theorem kind_eq (hp : g.Proper) (hq : f.Proper) (hclass : g.SameClass f) (heq : g.eqv f = true)
    (hg : StatesText g) (hf : StatesText f) : kind g = kind f := by
  have hstated : statedKind? g = statedKind? f := Option.ext fun _ =>
    ⟨statedKind?_of_eqv hp hq heq hg hf, statedKind?_of_eqv hq hp (hp.symm heq) hf hg⟩
  rw [kind, kind, hstated, hclass.className]

/-! ## What an identity is made of -/

/-- What the identities of two facts are made of comes out alike. -/
inductive Alike : Value → Value → Prop where
  | keys {k r b k' r' b' : Value} : Alike (.key k r b) (.key k' r' b')
  | ids {g f i j : Value} (kinds : kind g = kind f) (left : id g = .ok i) (right : id f = .ok j)
      (left_ne : i ≠ .none) (right_ne : j ≠ .none) (standIns : (i.freeze == j.freeze) = true) :
      Alike g f
  | contents {g f : Value} (kinds : kind g = kind f) (left : id g = .ok .none)
      (right : id f = .ok .none) (digests : g.digest = f.digest) : Alike g f

/-- What an identity is made of that is not given as such: the kind, and the stand-in of the id or
the digest. -/
def made (f i : Value) : FactKey :=
  match i with
  | .none => ⟨.text (kind f), .text f.digest, .bool true⟩
  | i => ⟨.text (kind f), i.freeze, .bool false⟩

/-- The identity of a fact that is none itself is made of its id, if kind and id, or without an id
the fact, can be written as far as that is called for. -/
theorem key_eq_ok (hother : ∀ k r b, f ≠ .key k r b) : key f = .ok k ↔
    ((statedKind? f).getD .none).checkText = .ok () ∧ ∃ i, id f = .ok i ∧ k = made f i ∧
      (i = .none ∧ f.checkContent = .ok () ∨ i ≠ .none ∧ i.checkFreezable = .ok ()) := by
  unfold key
  split
  · exact absurd rfl (hother _ _ _)
  · have hunit {p : Unit → Prop} : (∃ u, p u) ↔ p () := ⟨fun ⟨(), h⟩ => h, fun h => ⟨(), h⟩⟩
    simp only [bind_eq_ok, hunit]
    refine and_congr_right fun _ => exists_congr fun i => and_congr_right fun _ => ?_
    unfold made
    split
    · simp only [bind_eq_ok, hunit, pure_eq_ok]
      constructor
      · rintro ⟨hw, rfl⟩
        exact ⟨rfl, .inl ⟨trivial, hw⟩⟩
      · rintro ⟨rfl, ⟨-, hw⟩ | ⟨hne, -⟩⟩
        · exact ⟨hw, rfl⟩
        · exact absurd rfl hne
    · rename_i hne
      simp only [FactKey.ofId, bind_eq_ok, hunit, pure_eq_ok]
      constructor
      · rintro ⟨hw, rfl⟩
        exact ⟨rfl, .inr ⟨hne, hw⟩⟩
      · rintro ⟨rfl, ⟨hnone, -⟩ | ⟨-, hw⟩⟩
        · exact absurd hnone hne
        · exact ⟨hw, rfl⟩

theorem made_none : made f .none = ⟨.text (kind f), .text f.digest, .bool true⟩ := rfl

theorem made_of_ne (h : i ≠ .none) : made f i = ⟨.text (kind f), i.freeze, .bool false⟩ := by
  unfold made
  split
  · contradiction
  · rfl

/-- Identities made of a kind are equal exactly part by part. -/
theorem parts_eqv_iff {a b : String} {r r' : Value} {c d : Bool} :
    ((⟨.text a, r, .bool c⟩ : FactKey) == ⟨.text b, r', .bool d⟩) = true ↔
      a = b ∧ (r == r') = true ∧ c = d := by
  have hbool : (Value.bool c).eqv (.bool d) = true ↔ c = d := by
    cases c <;> cases d <;> decide
  change (Value.key (.text a) r (.bool c)).eqv (.key (.text b) r' (.bool d)) = true ↔ _
  rw [Value.eqv_key]
  constructor
  · rintro ⟨_, _, _, ⟨⟩, hk, hr, hb⟩
    exact ⟨Value.eqv_text_iff.mp hk, hr, hbool.mp hb⟩
  · rintro ⟨hk, hr, hb⟩
    exact ⟨_, _, _, rfl, Value.eqv_text_iff.mpr hk, hr, hbool.mpr hb⟩

/-- Two facts with known ids, of which the first is no identity itself. -/
theorem alike_iff (hother : ∀ k r b, g ≠ .key k r b) (hg : id g = .ok i) (hf : id f = .ok j) :
    Alike g f ↔ kind g = kind f ∧
      (i ≠ .none ∧ j ≠ .none ∧ (i.freeze == j.freeze) = true ∨
        i = .none ∧ j = .none ∧ g.digest = f.digest) := by
  constructor
  · intro h
    cases h with
    | keys => exact absurd rfl (hother _ _ _)
    | ids hkinds hi hj hne hne' hfreeze =>
      cases hg.symm.trans hi
      cases hf.symm.trans hj
      exact ⟨hkinds, .inl ⟨hne, hne', hfreeze⟩⟩
    | contents hkinds hi hj hdigests =>
      cases hg.symm.trans hi
      cases hf.symm.trans hj
      exact ⟨hkinds, .inr ⟨rfl, rfl, hdigests⟩⟩
  · rintro ⟨hkinds, ⟨hne, hne', hfreeze⟩ | ⟨rfl, rfl, hdigests⟩⟩
    · exact .ids hkinds hg hf hne hne' hfreeze
    · exact .contents hkinds hg hf hdigests

theorem other_of_eqv (hp : g.Proper) (heq : g.eqv f = true) (hother : ∀ k r b, g ≠ .key k r b) :
    ∀ k r b, f ≠ .key k r b := by
  rintro k r b rfl
  obtain ⟨_, _, _, h, -⟩ := Value.eqv_key.mp (hp.symm heq)
  exact hother _ _ _ h

/-- Equal facts have one identity exactly if what it is made of comes out alike. -/
theorem key_eqv_iff (hp : g.Proper) (heq : g.eqv f = true) (hg : key g = .ok k)
    (hf : key f = .ok l) : (k == l) = true ↔ Alike g f := by
  by_cases hkey : ∃ k r b, g = .key k r b
  · obtain ⟨_, _, _, rfl⟩ := hkey
    obtain ⟨_, _, _, rfl, -⟩ := Value.eqv_key.mp heq
    cases hg
    cases hf
    exact iff_of_true heq .keys
  · have hother : ∀ k r b, g ≠ .key k r b := fun k r b h => hkey ⟨k, r, b, h⟩
    have hother' := other_of_eqv hp heq hother
    obtain ⟨-, i, hi, rfl, -⟩ := (key_eq_ok hother).mp hg
    obtain ⟨-, j, hj, rfl, -⟩ := (key_eq_ok hother').mp hf
    rw [alike_iff hother hi hj]
    by_cases hnone : i = .none
    · obtain rfl := hnone
      by_cases hnone' : j = .none
      · obtain rfl := hnone'
        rw [made_none, made_none, parts_eqv_iff]
        simp [BEq.beq, Value.eqv_text_iff]
      · rw [made_none, made_of_ne hnone', parts_eqv_iff]
        simp [hnone']
    · by_cases hnone' : j = .none
      · obtain rfl := hnone'
        rw [made_of_ne hnone, made_none, parts_eqv_iff]
        simp [hnone]
      · rw [made_of_ne hnone, made_of_ne hnone', parts_eqv_iff]
        simp [hnone, hnone']

/-! ## Facts that equality and identity agree on -/

/-- Two facts that have one identity if they are equal: identities themselves; facts of one class
whose kinds are texts and whose ids are hashable or plain data; and such facts without ids that hold
the same data. -/
inductive Kindred : Value → Value → Prop where
  | keys {k r b k' r' b' : Value} : Kindred (.key k r b) (.key k' r' b')
  | ids {g f i j : Value} (sameClass : g.SameClass f) (kinds : StatesText g ∧ StatesText f)
      (left : id g = .ok i) (right : id f = .ok j) (ne : i ≠ .none)
      (ids : i.hashable = true ∧ j.hashable = true ∨ i.IsPlain ∧ j.IsPlain) : Kindred g f
  | data {g f : Value} (sameClass : g.SameClass f) (kinds : StatesText g ∧ StatesText f)
      (left : id g = .ok .none) (right : id f = .ok .none) (data : g.SameData f) : Kindred g f

/-- What the identities of equal kindred facts are made of comes out alike. -/
theorem Kindred.alike (h : Kindred g f) (hp : g.Proper) (hq : f.Proper) (heq : g.eqv f = true) :
    Alike g f := by
  cases h with
  | keys => exact .keys
  | @ids _ _ i j hclass hkinds hi hj hne hids =>
    have hij : i.eqv j = true := id_eqv hp hq hclass heq hi hj
    have hne' : j ≠ .none := fun hnone => hne ((eq_none_iff_of_eqv hij).mpr hnone)
    refine .ids (kind_eq hp hq hclass heq hkinds.1 hkinds.2) hi hj hne hne' ?_
    rcases hids with ⟨hhash, hhash'⟩ | ⟨hplain, hplain'⟩
    · rw [Value.freeze_of_hashable hhash, Value.freeze_of_hashable hhash']
      exact hij
    · exact hplain.freeze_eqv hplain' hij
  | data hclass hkinds hi hj hdata =>
    exact .contents (kind_eq hp hq hclass heq hkinds.1 hkinds.2) hi hj
      (congrArg Digest.ofText hdata.canonical_eq)

theorem StatesText.writable (h : StatesText f) :
    ((statedKind? f).getD .none).checkText = .ok () := by
  cases hs : statedKind? f with
  | none => rfl
  | some v =>
    obtain ⟨s, rfl⟩ := h v hs
    rfl

/-- If the identity of a fact can be found, so can that of an equal kindred one. -/
theorem Kindred.key_returns (h : Kindred g f) (hp : g.Proper) (hq : f.Proper)
    (heq : g.eqv f = true) (hg : key g = .ok k) : ∃ l, key f = .ok l := by
  by_cases hkey : ∃ k r b, g = .key k r b
  · obtain ⟨_, _, _, rfl⟩ := hkey
    obtain ⟨_, _, _, rfl, -⟩ := Value.eqv_key.mp heq
    exact ⟨_, rfl⟩
  · have hother : ∀ k r b, g ≠ .key k r b := fun k r b h => hkey ⟨k, r, b, h⟩
    have hother' := other_of_eqv hp heq hother
    obtain ⟨-, m, hm, -, hcheck⟩ := (key_eq_ok hother).mp hg
    cases h with
    | keys => exact ⟨_, rfl⟩
    | @ids _ _ i j hclass hkinds hi hj hne hids =>
      obtain rfl : i = m := Except.ok.inj (hi.symm.trans hm)
      have hij : i.eqv j = true := id_eqv hp hq hclass heq hi hj
      have hne' : j ≠ .none := fun hnone => hne ((eq_none_iff_of_eqv hij).mpr hnone)
      have hfreezable : j.isUnfreezable = false := by
        rcases hids with ⟨-, hhash⟩ | ⟨hplain, hplain'⟩
        · exact Value.isUnfreezable_of_hashable hhash
        · rw [← hplain.isUnfreezable_congr hplain' hij]
          rcases hcheck with ⟨hnone, -⟩ | ⟨-, hcheck⟩
          · exact absurd hnone hne
          · exact Value.checkFreezable_eq_ok.mp hcheck
      exact ⟨made f j, (key_eq_ok hother').mpr ⟨hkinds.2.writable, j, hj, rfl,
        .inr ⟨hne', Value.checkFreezable_eq_ok.mpr hfreezable⟩⟩⟩
    | data hclass hkinds hi hj hdata =>
      obtain rfl : Value.none = m := Except.ok.inj (hi.symm.trans hm)
      have hwritable : f.isOverlongContent = false := by
        rw [← hdata.isOverlongContent_eq]
        rcases hcheck with ⟨-, hcheck⟩ | ⟨hne, -⟩
        · exact Value.checkContent_eq_ok.mp hcheck
        · exact absurd rfl hne
      exact ⟨made f .none, (key_eq_ok hother').mpr ⟨hkinds.2.writable, .none, hj, rfl,
        .inl ⟨rfl, Value.checkContent_eq_ok.mpr hwritable⟩⟩⟩

/-- The identity of a fact can be hashed, unless the fact is an identity that cannot. -/
theorem key_hashable (h : key f = .ok k) (hkeys : ∀ k r b, f = .key k r b → f.hashable = true) :
    k.checkHashable = .ok () := by
  rw [FactKey.checkHashable_eq_ok]
  by_cases hkey : ∃ k r b, f = .key k r b
  · obtain ⟨_, _, _, rfl⟩ := hkey
    cases h
    exact Value.hashable_key.mp (hkeys _ _ _ rfl)
  · obtain ⟨-, i, -, rfl, -⟩ := (key_eq_ok fun k r b h => hkey ⟨k, r, b, h⟩).mp h
    by_cases hi : i = .none
    · rw [hi]
      exact ⟨rfl, rfl, rfl⟩
    · rw [made_of_ne hi]
      exact ⟨rfl, Value.freeze_hashable i, rfl⟩

end Fact

end RuleEngine
