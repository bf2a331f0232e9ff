import RuleEngine.Proofs.Text.Quoted
import RuleEngine.Proofs.Value.Plain

/-!
# Stand-ins

The stand-in of a map lists its entries in the order of their shown form. Equal values may be shown
differently, so it takes an argument that equal maps come out in one order: the shown form of an
entry begins with that of its key, and the shown forms of different text keys differ before one of
them ends.

* `freeze_hashable`: a stand-in is hashable, whatever it stands for.
* `entry_notAfter`: which of two entries with text keys comes first is decided by the keys.
* `IsPlain.freeze_eqv`: equal plain data has equal stand-ins.
-/

namespace RuleEngine.Value

variable {u v w : Value} {xs : List Value} {es fs : List (Value × Value)} {a b : String}

/-! ## Stand-ins are hashable -/

theorem hashable_text (s : String) : (text s).hashable = true := rfl

theorem hashable_tuple : (tuple xs).hashable = true ↔ ∀ x ∈ xs, x.hashable = true := by
  rw [hashable, Option.isNone_iff_eq_none, ← unhashableItem?_eq_none]
  rfl

theorem hashable_frozenSet : (frozenSet xs).hashable = true ↔ ∀ x ∈ xs, x.hashable = true := by
  rw [hashable, Option.isNone_iff_eq_none, ← unhashableItem?_eq_none]
  rfl

theorem hashable_pair : (tuple [v, w]).hashable = true ↔
    v.hashable = true ∧ w.hashable = true := by
  simp [hashable_tuple]

theorem hashable_tagged {tag : String} (h : ∀ x ∈ xs, x.hashable = true) :
    (tuple [text tag, tuple xs]).hashable = true :=
  hashable_pair.mpr ⟨hashable_text tag, hashable_tuple.mpr h⟩

theorem freeze_hashable (v : Value) : v.freeze.hashable = true := by
  induction v using induct with
  | atom v a h =>
    cases v with
    | buffer bs => exact hashable_pair.mpr ⟨rfl, rfl⟩
    | _ => first | rfl | cases h
  | list xs ih | tuple xs ih =>
    rw [freeze, freezeAll_eq_map, hashable_tuple, List.forall_mem_map]
    exact ih
  | members v xs hm ih =>
    cases v with
    | set | frozenSet =>
      cases hm
      rw [freeze, freezeAll_eq_map, hashable_frozenSet, List.forall_mem_map]
      exact ih
    | _ => cases hm
  | map es ih =>
    refine hashable_tagged fun x hx => ?_
    rw [mem_sortOn, freezeEntries_eq_map, List.mem_map] at hx
    obtain ⟨e, he, rfl⟩ := hx
    exact hashable_pair.mpr (ih e he)
  | object c fs ih =>
    rw [freeze]
    split
    · assumption
    · cases c.sort with
      | record frozen =>
        refine hashable_tagged fun x hx => ?_
        rw [freezeFields_eq_map, List.mem_map] at hx
        obtain ⟨f, hf, rfl⟩ := hx
        exact hashable_pair.mpr ⟨hashable_text f.1, ih f hf⟩
      | labelled hashable => exact hashable_pair.mpr ⟨rfl, rfl⟩
  | key k r b ihk ihr ihb =>
    rw [freeze]
    split
    · assumption
    · refine hashable_tagged fun x hx => ?_
      simp only [List.mem_cons, List.not_mem_nil, or_false] at hx
      rcases hx with rfl | rfl | rfl <;> simp [hashable_pair, hashable_text, ihk, ihr, ihb]
  | method o n => rfl

/-! ## The order of a frozen map -/

theorem inspect_pair (v w : Value) :
    (tuple [v, w]).inspect = "(" ++ commas [v.inspect, w.inspect] ++ ")" := rfl

theorem inspect_entry (a : String) (v : Value) : ∃ r,
    (tuple [text a, v]).inspect.toList = '(' :: (Text.quote a).toList ++ r := by
  have hkey : (text a).inspect = Text.quote a := rfl
  refine ⟨", ".toList ++ v.inspect.toList ++ ")".toList, ?_⟩
  rw [inspect_pair, hkey]
  simp [commas]

theorem entries_diverge (h : a ≠ b) :
    Text.Diverge ('(' :: (Text.quote a).toList) ('(' :: (Text.quote b).toList) := by
  intro r s heq
  exact Text.quote_diverge h r s (List.cons.inj heq).2

theorem entry_notAfter (h : a ≠ b) (v w v' w' : Value) :
    Text.notAfter (tuple [text a, v]).inspect (tuple [text b, w]).inspect =
      Text.notAfter (tuple [text a, v']).inspect (tuple [text b, w']).inspect := by
  obtain ⟨r, hr⟩ := inspect_entry a v
  obtain ⟨s, hs⟩ := inspect_entry b w
  obtain ⟨r', hr'⟩ := inspect_entry a v'
  obtain ⟨s', hs'⟩ := inspect_entry b w'
  simp only [Text.notAfter, String.lt_iff, hr, hs, hr', hs',
    Text.lt_append_iff (entries_diverge h).symm s r s' r']

theorem entry_inspect_ne (h : a ≠ b) (v w : Value) :
    (tuple [text a, v]).inspect ≠ (tuple [text b, w]).inspect := by
  obtain ⟨r, hr⟩ := inspect_entry a v
  obtain ⟨s, hs⟩ := inspect_entry b w
  intro heq
  rw [← String.toList_inj, hr, hs] at heq
  exact entries_diverge h r s heq

def frozenEntry (e : Value × Value) : Value := tuple [e.1.freeze, e.2.freeze]

def frozenOrder (e : Value × Value) : String := (frozenEntry e).inspect

theorem freeze_map (es : List (Value × Value)) : (map es).freeze =
    tuple [text "__map__", tuple ((Text.sortOn frozenOrder es).map frozenEntry)] := by
  rw [freeze, freezeEntries_eq_map]
  exact congrArg (fun xs => tuple [text "__map__", tuple xs])
    (Text.sortOn_map inspect frozenEntry es)

theorem frozenOrder_of_text {e : Value × Value} (h : e.1 = .text a) :
    frozenOrder e = (tuple [text a, e.2.freeze]).inspect := by
  have hself : (text a).freeze = text a := rfl
  rw [frozenOrder, frozenEntry, h, hself]

/-! ## Stand-ins of equal plain data -/

theorem IsScalar.freeze (h : v.IsScalar) : v.freeze = v := by
  cases v <;> first | rfl | cases h

/-- The entries of equal maps correspond in the order in which they are frozen: that order is the
order of the shown keys, which are the same. -/
theorem IsPlain.frozen_matching (he : (Value.map es).IsPlain) (hf : (Value.map fs).IsPlain)
    (h : (Value.map es).eqv (.map fs) = true) :
    List.Forall₂ (fun e f => e.1 = f.1 ∧ eqv e.2 f.2 = true)
      (Text.sortOn frozenOrder es) (Text.sortOn frozenOrder fs) := by
  obtain ⟨gs, hperm, hgs⟩ := he.matching hf h
  obtain ⟨hkf, -, hdf⟩ := hf.of_map
  obtain ⟨hke, -, hde⟩ := he.of_map
  have hdiffer : fs.Pairwise fun e f => frozenOrder e ≠ frozenOrder f := by
    refine hdf.imp_of_mem fun he hf hne => ?_
    obtain ⟨a, ha⟩ := hkf _ he
    obtain ⟨b, hb⟩ := hkf _ hf
    rw [frozenOrder_of_text ha, frozenOrder_of_text hb]
    exact entry_inspect_ne (fun hab => hne (by rw [ha, hb, hab])) _ _
  rw [Text.sortOn_eq_of_perm hperm.symm hdiffer, Text.sortOn_eq_sort, Text.sortOn_eq_sort]
  refine StableSort.sort_forall₂ hgs (hde.imp_of_mem fun he hf hne g g' hg hg' => ?_)
  obtain ⟨a, ha⟩ := hke _ he
  obtain ⟨b, hb⟩ := hke _ hf
  rw [frozenOrder_of_text ha, frozenOrder_of_text hb, frozenOrder_of_text (hg.1 ▸ ha),
    frozenOrder_of_text (hg'.1 ▸ hb)]
  exact entry_notAfter (fun hab => hne (by rw [ha, hb, hab])) _ _ _ _

/-- Sequences are equal as tuples of stand-ins if their items have equal ones. -/
theorem freezeAll_eqv {ys : List Value}
    (h : List.Forall₂ (fun x y => x.freeze.eqv y.freeze = true) xs ys) :
    (tuple (freezeAll xs)).eqv (tuple (freezeAll ys)) = true := by
  rw [freezeAll_eq_map, freezeAll_eq_map, eqv_tuple]
  exact ⟨_, rfl, List.forall₂_map_left_iff.mpr (List.forall₂_map_right_iff.mpr h)⟩

/-- Stand-ins of maps are equal if they list the same keys with equal stand-ins of values. -/
theorem freeze_map_eqv (hk : ∀ e ∈ es, ∃ s, e.1 = .text s)
    (h : List.Forall₂ (fun e f => e.1 = f.1 ∧ e.2.freeze.eqv f.2.freeze = true)
      (Text.sortOn frozenOrder es) (Text.sortOn frozenOrder fs)) :
    (map es).freeze.eqv (map fs).freeze = true := by
  have hentries : List.Forall₂ (fun e f => (frozenEntry e).eqv (frozenEntry f) = true)
      (Text.sortOn frozenOrder es) (Text.sortOn frozenOrder fs) := by
    refine forall₂_of_mem h fun e he f _ hef => eqv_tuple.mpr ⟨_, rfl, .cons ?_ (.cons hef.2 .nil)⟩
    obtain ⟨s, hs⟩ := hk e (mem_sortOn.mp he)
    rw [← hef.1, hs]
    exact (proper_text s).refl
  rw [freeze_map, freeze_map]
  refine eqv_tuple.mpr ⟨_, rfl, .cons (proper_text _).refl (.cons ?_ .nil)⟩
  refine eqv_tuple.mpr ⟨_, rfl, ?_⟩
  exact List.forall₂_map_left_iff.mpr (List.forall₂_map_right_iff.mpr hentries)

theorem IsPlain.freeze_eqv (hu : u.IsPlain) (hv : v.IsPlain) (h : u.eqv v = true) :
    u.freeze.eqv v.freeze = true := by
  induction hu generalizing v with
  | scalar hs =>
    obtain ⟨a, ha, -⟩ := hs.exists_atom
    have hva : v.atom? = some a := ((eqv_of_atom ha).mp h).2
    rwa [hs.freeze, (hv.of_atom hva).freeze]
  | list _ ih =>
    obtain ⟨ys, rfl, hys⟩ := eqv_list.mp h
    exact freezeAll_eqv (forall₂_of_mem hys fun x hx y hy => ih x hx (hv.of_list y hy))
  | tuple _ ih =>
    obtain ⟨ys, rfl, hys⟩ := eqv_tuple.mp h
    exact freezeAll_eqv (forall₂_of_mem hys fun x hx y hy => ih x hx (hv.of_tuple y hy))
  | @map es hk hval hd ih =>
    obtain ⟨fs, rfl, -⟩ := eqv_map.mp h
    have hmatch := (IsPlain.map hk hval hd).frozen_matching hv h
    refine freeze_map_eqv hk (forall₂_of_mem hmatch fun e he f hf hef => ⟨hef.1, ?_⟩)
    exact ih e (mem_sortOn.mp he) (hv.of_map.2.1 f (mem_sortOn.mp hf)) hef.2

end RuleEngine.Value
