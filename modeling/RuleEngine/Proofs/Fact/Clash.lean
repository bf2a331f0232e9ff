import RuleEngine.Proofs.Fact.Frozen
import RuleEngine.Proofs.Value.Structured

/-!
# What stand-ins do not tell apart

Lists, tuples, maps, records and fact keys that are not hashable all have a tuple as their stand-in.
So the stand-in of a list of two items may be that of a pair, of a map or of a record, and it does
not say which. The stand-in of a record has the name of its class and not the class, so two classes
of one name in two modules are not told apart either. Apart from this stand-ins lose nothing: of two
structured values with equal stand-ins either both are equal, or they `Clash`, that is, in some
place of both there are containers of different sorts or records of two classes with one name.

* `IsStructured.eqv_or_clash`: values with equal stand-ins are equal or clash.
* `Clash.eqv_eq_false`: values that clash are not equal.
-/

namespace RuleEngine.Value

/-- The sorts of values that may have a tuple as their stand-in. -/
inductive Container where
  | list
  | tuple
  | map
  | record
  | key
  deriving DecidableEq, Repr

/-- The sort of container a value is, if it may have a tuple as its stand-in. -/
def container? : Value → Option Container
  | .list _ => some .list
  | .tuple _ => some .tuple
  | .map _ => some .map
  | .object .. => some .record
  | .key .. => some .key
  | _ => Option.none

/-- The values have containers of different sorts, or records of two classes with one name, in one
place: they are such containers, or their parts in one place, or under one key, clash. -/
inductive Clash : Value → Value → Prop where
  | sorts {v w : Value} {a b : Container} (left : v.container? = some a)
      (right : w.container? = some b) (ne : a ≠ b) : Clash v w
  | classes {c d : ObjectClass} {fs gs : List (String × Value)} (name : c.name = d.name)
      (ne : c.identity ≠ d.identity) (left : (object c fs).hashable = false)
      (right : (object d gs).hashable = false) : Clash (.object c fs) (.object d gs)
  | list {xs ys : List Value} {x y : Value} (place : (x, y) ∈ xs.zip ys) (parts : Clash x y) :
      Clash (.list xs) (.list ys)
  | tuple {xs ys : List Value} {x y : Value} (place : (x, y) ∈ xs.zip ys) (parts : Clash x y) :
      Clash (.tuple xs) (.tuple ys)
  | map {es fs : List (Value × Value)} {e f : Value × Value} (left : e ∈ es) (right : f ∈ fs)
      (keys : eqv e.1 f.1 = true) (values : Clash e.2 f.2) : Clash (.map es) (.map fs)
  | record {c d : ObjectClass} {fs gs : List (String × Value)} {f g : String × Value}
      (place : (f, g) ∈ fs.zip gs) (parts : Clash f.2 g.2) : Clash (.object c fs) (.object d gs)
  | key {k r b k' r' b' x y : Value} (place : (x, y) ∈ [k, r, b].zip [k', r', b'])
      (parts : Clash x y) : Clash (.key k r b) (.key k' r' b')

variable {v w : Value} {xs ys : List Value} {es fs : List (Value × Value)}
  {gs hs : List (String × Value)}

theorem Clash.left_container (h : Clash v w) : ∃ a, v.container? = some a := by
  cases h with
  | sorts ha => exact ⟨_, ha⟩
  | _ => exact ⟨_, rfl⟩

/-! ## Values that clash are not equal -/

theorem container_of_eqv {a : Container} (ha : v.container? = some a) (h : v.eqv w = true) :
    w.container? = some a := by
  cases v with
  | list => obtain ⟨_, rfl, -⟩ := eqv_list.mp h; exact ha
  | tuple => obtain ⟨_, rfl, -⟩ := eqv_tuple.mp h; exact ha
  | map => obtain ⟨_, rfl, -⟩ := eqv_map.mp h; exact ha
  | object => obtain ⟨_, _, rfl, -⟩ := eqv_object.mp h; exact ha
  | key => obtain ⟨_, _, _, rfl, -⟩ := eqv_key.mp h; exact ha
  | _ => cases ha

theorem IsStructured.key_isSteady (h : (Value.map es).IsStructured) {e : Value × Value}
    (he : e ∈ es) : e.1.IsSteady := (h.of_map.1 e he).proper.isSteady

/-- A key that equals one of a structured map finds the entry under that key. -/
theorem IsStructured.find_of_mem (hf : (Value.map fs).IsStructured) {k : Value} (hk : k.IsSteady)
    {f : Value × Value} (hmf : f ∈ fs) (h : eqv k f.1 = true) :
    fs.find? (fun g => eqv k g.1) = some f :=
  Value.find_of_mem (fun _ => hf.key_isSteady) (fun g hg => (hf.of_map.2.1 g hg).proper.isSteady)
    hf.of_map.2.2.2 hk hmf h

theorem values_eqv (he : (map es).IsStructured) (hf : (map fs).IsStructured)
    (h : (map es).eqv (map fs) = true) {e f : Value × Value} (hme : e ∈ es) (hmf : f ∈ fs)
    (hk : eqv e.1 f.1 = true) : eqv e.2 f.2 = true := by
  obtain ⟨_, ⟨⟩, -, hfinds⟩ := eqv_map.mp h
  obtain ⟨g, -, hg, hv⟩ := hfinds e hme
  rw [hf.find_of_mem (he.key_isSteady hme) hmf hk] at hg
  cases hg
  exact hv

theorem Clash.eqv_eq_false (h : Clash v w) (hv : v.IsStructured) (hw : w.IsStructured) :
    v.eqv w = false := by
  refine Bool.eq_false_iff.mpr fun heq => ?_
  induction h with
  | sorts ha hb hne =>
    rw [container_of_eqv ha heq] at hb
    exact hne (Option.some.inj hb)
  | classes _ hne =>
    obtain ⟨_, _, ⟨⟩, hsame, -⟩ := eqv_object.mp heq
    exact hne hsame
  | list hp _ ih =>
    obtain ⟨_, ⟨⟩, hys⟩ := eqv_list.mp heq
    obtain ⟨hx, hy⟩ := List.of_mem_zip hp
    exact ih (hv.of_list _ hx) (hw.of_list _ hy) (List.forall₂_zip hys hp)
  | tuple hp _ ih =>
    obtain ⟨_, ⟨⟩, hys⟩ := eqv_tuple.mp heq
    obtain ⟨hx, hy⟩ := List.of_mem_zip hp
    exact ih (hv.of_tuple _ hx) (hw.of_tuple _ hy) (List.forall₂_zip hys hp)
  | map he hf hk _ ih =>
    exact ih (hv.of_map.2.1 _ he) (hw.of_map.2.1 _ hf)
      (values_eqv hv hw heq he hf hk)
  | record hp _ ih =>
    obtain ⟨_, _, ⟨⟩, -, hgs⟩ := eqv_object.mp heq
    obtain ⟨hx, hy⟩ := List.of_mem_zip hp
    exact ih (hv.of_object.2 _ hx) (hw.of_object.2 _ hy) (List.forall₂_zip hgs hp)
  | key hp _ ih =>
    obtain ⟨_, _, _, ⟨⟩, hk, hr, hb⟩ := eqv_key.mp heq
    obtain ⟨hvk, hvr, hvb⟩ := hv.of_key
    obtain ⟨hwk, hwr, hwb⟩ := hw.of_key
    simp only [List.zip_cons_cons, List.zip_nil_right, List.mem_cons, List.not_mem_nil, or_false,
      Prod.mk.injEq] at hp
    obtain ⟨rfl, rfl⟩ | ⟨rfl, rfl⟩ | ⟨rfl, rfl⟩ := hp
    · exact ih hvk hwk hk
    · exact ih hvr hwr hr
    · exact ih hvb hwb hb

/-! ## Values with a tuple as their stand-in -/

theorem pair_eqv {n m : String} : (tuple [text n, v]).eqv (tuple [text m, w]) = true ↔
    n = m ∧ v.eqv w = true := by
  have htext : (text n).eqv (text m) = true ↔ n = m := by
    refine ⟨fun h => (Option.some.inj (text_eqv h)).symm, ?_⟩
    rintro rfl
    exact (proper_text n).refl
  simp [eqv_tuple, htext]

theorem freeze_record {c : ObjectClass} {frozen : Bool} (hs : c.sort = .record frozen)
    (hh : (object c gs).hashable = false) :
    (object c gs).freeze = tuple [text c.name, tuple (freezeFields gs)] := by
  rw [freeze, if_neg (by simp [hh]), hs]
  rfl

def keyFields (k r b : Value) : List (String × Value) :=
  [("kind", k), ("ref", r), ("by_content", b)]

theorem freeze_key {k r b : Value} (hh : (key k r b).hashable = false) :
    (key k r b).freeze = tuple [text "FactKey", tuple (freezeFields (keyFields k r b))] := by
  rw [freeze, if_neg (by simp [hh])]
  rfl

theorem IsStructured.freeze_members (hv : v.IsStructured) (hm : v.members? = some xs) :
    v.freeze = .frozenSet xs := by
  have hself : freezeAll xs = xs := freezeAll_eq_self fun x hx =>
    freeze_of_hashable (hv.of_members hm x hx).2
  cases v with
  | set | frozenSet =>
    cases hm
    rw [freeze, hself]
  | _ => cases hm

/-- A structured value that is no set is its own stand-in, or it is a container with a tuple as its
stand-in and, unless it is a tuple itself, not hashable. -/
theorem IsStructured.freeze_cases (hw : w.IsStructured) : w.freeze = w ∨
    (∃ ys, w.freeze = .tuple ys) ∨ ∃ xs, w.members? = some xs ∧ w.freeze = .frozenSet xs := by
  by_cases hh : w.hashable = true
  · exact .inl (freeze_of_hashable hh)
  · have hh' : w.hashable = false := Bool.eq_false_iff.mpr hh
    cases hw with
    | atom _ _ hself => exact absurd hself hh
    | list | tuple | map => exact .inr (.inl ⟨_, rfl⟩)
    | members hm hxs hhash hd =>
      exact .inr (.inr ⟨_, hm, (IsStructured.members hm hxs hhash hd).freeze_members hm⟩)
    | record hs => exact .inr (.inl ⟨_, freeze_record hs hh'⟩)
    | key => exact .inr (.inl ⟨_, freeze_key hh'⟩)

/-- A stand-in that is neither a tuple nor a set is the value itself. -/
theorem IsStructured.freeze_eq_self_of (hw : w.IsStructured)
    (ht : w.freeze.container? ≠ some .tuple) (hm : w.freeze.members? = Option.none) :
    w.freeze = w := by
  obtain hfw | ⟨ys, hfw⟩ | ⟨xs, -, hfw⟩ := hw.freeze_cases
  · exact hfw
  · rw [hfw] at ht
    exact absurd rfl ht
  · rw [hfw] at hm
    cases hm

/-- What has a tuple as its stand-in is a container, and not hashable if it is no tuple. -/
theorem IsStructured.container_of_freeze (hw : w.IsStructured) (h : w.freeze = .tuple ys) :
    ∃ a, w.container? = some a ∧ (a ≠ .tuple → w.hashable = false) := by
  have hc : ∃ a, w.container? = some a := by
    cases w with
    | buffer bs =>
      cases hw with
      | atom _ _ hh => cases hh
      | members hm => cases hm
    | _ => first | exact ⟨_, rfl⟩ | cases h
  obtain ⟨a, ha⟩ := hc
  refine ⟨a, ha, fun hne => Bool.eq_false_iff.mpr fun hh => hne ?_⟩
  rw [freeze_of_hashable hh] at h
  rw [h] at ha
  exact (Option.some.inj ha).symm

/-- What has a tuple as its stand-in is a container of a given sort or clashes with all of these. -/
theorem IsStructured.same_or_clash {a : Container} (hw : w.IsStructured)
    (hv : v.container? = some a) (h : w.freeze = .tuple ys) :
    w.container? = some a ∧ (a ≠ .tuple → w.hashable = false) ∨ Clash v w := by
  obtain ⟨b, hb, hh⟩ := hw.container_of_freeze h
  by_cases hab : a = b
  · subst hab
    exact .inl ⟨hb, hh⟩
  · exact .inr (.sorts hv hb hab)

theorem list_of_container (h : w.container? = some .list) : ∃ ys, w = list ys := by
  cases w <;> first | exact ⟨_, rfl⟩ | cases h

theorem tuple_of_container (h : w.container? = some .tuple) : ∃ ys, w = tuple ys := by
  cases w <;> first | exact ⟨_, rfl⟩ | cases h

theorem map_of_container (h : w.container? = some .map) : ∃ fs, w = map fs := by
  cases w <;> first | exact ⟨_, rfl⟩ | cases h

theorem object_of_container (h : w.container? = some .record) : ∃ d hs, w = object d hs := by
  cases w <;> first | exact ⟨_, _, rfl⟩ | cases h

theorem key_of_container (h : w.container? = some .key) : ∃ k r b, w = key k r b := by
  cases w <;> first | exact ⟨_, _, _, rfl⟩ | cases h

/-! ## Parts with equal stand-ins -/

/-- Whatever structured value has an equal stand-in, is equal or clashes. -/
def EqualOrClashes (v : Value) : Prop :=
  ∀ {w : Value}, w.IsStructured → v.freeze.eqv w.freeze = true → v.eqv w = true ∨ Clash v w

/-- Items with equal stand-ins are equal, or two in one place clash. -/
theorem items_eqv_or_clash (hx : ∀ x ∈ xs, EqualOrClashes x) (hy : ∀ y ∈ ys, y.IsStructured)
    (h : (tuple (freezeAll xs)).eqv (tuple (freezeAll ys)) = true) :
    List.Forall₂ (fun x y => eqv x y = true) xs ys ∨ ∃ x y, (x, y) ∈ xs.zip ys ∧ Clash x y := by
  obtain ⟨_, ⟨⟩, hfrozen⟩ := eqv_tuple.mp h
  rw [freezeAll_eq_map, freezeAll_eq_map, List.forall₂_map_left_iff,
    List.forall₂_map_right_iff] at hfrozen
  exact forall₂_or_exists (forall₂_of_mem hfrozen fun x hmx y hmy => hx x hmx (hy y hmy))

/-- Fields with equal stand-ins are equal, or two in one place clash. -/
theorem fields_eqv_or_clash (hg : ∀ g ∈ gs, EqualOrClashes g.2) (hh : ∀ h ∈ hs, h.2.IsStructured)
    (h : (tuple (freezeFields gs)).eqv (tuple (freezeFields hs)) = true) :
    List.Forall₂ (fun g h => eqv g.2 h.2 = true) gs hs ∨
      ∃ g h, (g, h) ∈ gs.zip hs ∧ Clash g.2 h.2 := by
  obtain ⟨_, ⟨⟩, hfrozen⟩ := eqv_tuple.mp h
  rw [freezeFields_eq_map, freezeFields_eq_map, List.forall₂_map_left_iff,
    List.forall₂_map_right_iff] at hfrozen
  refine forall₂_or_exists (forall₂_of_mem hfrozen fun g hmg h hmh heq => ?_)
  exact hg g hmg (hh h hmh) (pair_eqv.mp heq).2

/-- Maps with equal stand-ins are equal, or the values under one key clash. -/
theorem entries_eqv_or_clash (he : (map es).IsStructured) (hf : (map fs).IsStructured)
    (hv : ∀ e ∈ es, EqualOrClashes e.2) (h : (map es).freeze.eqv (map fs).freeze = true) :
    (map es).eqv (map fs) = true ∨ Clash (map es) (map fs) := by
  obtain ⟨-, -, hhe, -⟩ := he.of_map
  obtain ⟨-, hvf, hhf, -⟩ := hf.of_map
  rw [freeze_map, freeze_map, pair_eqv] at h
  obtain ⟨_, ⟨⟩, hfrozen⟩ := eqv_tuple.mp h.2
  rw [List.forall₂_map_left_iff, List.forall₂_map_right_iff] at hfrozen
  -- keys are hashable, so they are their own stand-ins
  have hentries : List.Forall₂ (fun e f => eqv e.1 f.1 = true ∧ eqv e.2 f.2 = true ∨
      eqv e.1 f.1 = true ∧ Clash e.2 f.2)
      (Text.sortOn frozenOrder es) (Text.sortOn frozenOrder fs) := by
    refine forall₂_of_mem hfrozen fun e hme f hmf heq => ?_
    have hme := mem_sortOn.mp hme
    have hmf := mem_sortOn.mp hmf
    obtain ⟨_, ⟨⟩, hparts⟩ := eqv_tuple.mp heq
    simp only [List.forall₂_cons, List.Forall₂.nil, and_true,
      freeze_of_hashable (hhe e hme), freeze_of_hashable (hhf f hmf)] at hparts
    exact (hv e hme (hvf f hmf) hparts.2).imp (⟨hparts.1, ·⟩) (⟨hparts.1, ·⟩)
  rcases forall₂_or_exists hentries with hall | ⟨e, f, hplace, hk, hclash⟩
  · refine .inl (eqv_map.mpr ⟨fs, rfl, ?_, fun e hme => ?_⟩)
    · have hlen := hall.length_eq
      rwa [(Text.sortOn_perm _ es).length_eq, (Text.sortOn_perm _ fs).length_eq] at hlen
    · obtain ⟨f, hmf, hk, hval⟩ := exists_of_forall₂ hall (mem_sortOn.mpr hme)
      have hmf := mem_sortOn.mp hmf
      exact ⟨f, hmf, hf.find_of_mem (he.key_isSteady hme) hmf hk, hval⟩
  · obtain ⟨hme, hmf⟩ := List.of_mem_zip hplace
    exact .inr (.map (mem_sortOn.mp hme) (mem_sortOn.mp hmf) hk hclash)

/-! ## Structured values with equal stand-ins -/

theorem parts_of_atom {a : Atom} (h : v.atom? = some a) :
    v.container? = Option.none ∧ v.members? = Option.none := by
  cases v <;> first | exact ⟨rfl, rfl⟩ | cases h

theorem atom_eqv_or_clash {a : Atom} (ha : v.atom? = some a) (hh : v.hashable = true) :
    EqualOrClashes v := by
  intro w hw h
  rw [freeze_of_hashable hh] at h
  have hwa : w.freeze.atom? = some a := ((eqv_of_atom ha).mp h).2
  obtain ⟨hc, hm⟩ := parts_of_atom hwa
  have hself : w.freeze = w := hw.freeze_eq_self_of (by simp [hc]) hm
  exact .inl (hself ▸ h)

theorem list_eqv_or_clash (hx : ∀ x ∈ xs, EqualOrClashes x) : EqualOrClashes (.list xs) := by
  intro w hw h
  obtain ⟨ys, hfw, -⟩ := eqv_tuple.mp h
  obtain ⟨hsame, -⟩ | hclash := hw.same_or_clash (v := .list xs) rfl hfw
  · obtain ⟨ys, rfl⟩ := list_of_container hsame
    rcases items_eqv_or_clash hx hw.of_list h with hall | ⟨x, y, hp, hc⟩
    · exact .inl (eqv_list.mpr ⟨ys, rfl, hall⟩)
    · exact .inr (.list hp hc)
  · exact .inr hclash

theorem tuple_eqv_or_clash (hx : ∀ x ∈ xs, EqualOrClashes x) : EqualOrClashes (.tuple xs) := by
  intro w hw h
  obtain ⟨ys, hfw, -⟩ := eqv_tuple.mp h
  obtain ⟨hsame, -⟩ | hclash := hw.same_or_clash (v := .tuple xs) rfl hfw
  · obtain ⟨ys, rfl⟩ := tuple_of_container hsame
    rcases items_eqv_or_clash hx hw.of_tuple h with hall | ⟨x, y, hp, hc⟩
    · exact .inl (eqv_tuple.mpr ⟨ys, rfl, hall⟩)
    · exact .inr (.tuple hp hc)
  · exact .inr hclash

/-- Sets have hashable members, so their stand-ins have the same members. -/
theorem members_eqv_or_clash (hv : v.IsStructured) (hm : v.members? = some xs) :
    EqualOrClashes v := by
  intro w hw h
  rw [hv.freeze_members hm] at h
  obtain ⟨ys, hys, hsub⟩ := (eqv_of_members rfl).mp h
  have hw' : w.members? = some ys := by
    obtain hfw | ⟨zs, hfw⟩ | ⟨zs, hzs, hfw⟩ := hw.freeze_cases
    · rwa [hfw] at hys
    · rw [hfw] at hys
      cases hys
    · rw [hfw] at hys
      rwa [← Option.some.inj hys]
  exact .inl ((eqv_of_members hm).mpr ⟨ys, hw', hsub⟩)

theorem map_eqv_or_clash (hv : (map es).IsStructured) (he : ∀ e ∈ es, EqualOrClashes e.2) :
    EqualOrClashes (.map es) := by
  intro w hw h
  obtain ⟨ys, hfw, -⟩ := eqv_tuple.mp (freeze_map es ▸ h)
  obtain ⟨hsame, -⟩ | hclash := hw.same_or_clash (v := .map es) rfl hfw
  · obtain ⟨fs, rfl⟩ := map_of_container hsame
    exact entries_eqv_or_clash hv hw he h
  · exact .inr hclash

theorem record_eqv_or_clash {c : ObjectClass} (hv : (object c gs).IsStructured)
    (hg : ∀ g ∈ gs, EqualOrClashes g.2) : EqualOrClashes (.object c gs) := by
  intro w hw h
  by_cases hh : (object c gs).hashable = true
  · rw [freeze_of_hashable hh] at h
    obtain ⟨d, hs, hfw, -⟩ := eqv_object.mp h
    have hself : w.freeze = w :=
      hw.freeze_eq_self_of (by simp [hfw, container?]) (by rw [hfw]; rfl)
    exact .inl (hself ▸ h)
  · have hopen : (object c gs).hashable = false := Bool.eq_false_iff.mpr hh
    obtain ⟨⟨_, hs⟩, -⟩ := hv.of_object
    rw [freeze_record hs hopen] at h
    obtain ⟨ys, hfw, -⟩ := eqv_tuple.mp h
    obtain ⟨hsame, hnot⟩ | hclash := hw.same_or_clash (v := .object c gs) rfl hfw
    · obtain ⟨d, hs', rfl⟩ := object_of_container hsame
      obtain ⟨⟨_, hsd⟩, hfields⟩ := hw.of_object
      have hopen' : (object d hs').hashable = false := hnot (by decide)
      rw [freeze_record hsd hopen', pair_eqv] at h
      by_cases hclass : c.identity = d.identity
      · rcases fields_eqv_or_clash hg hfields h.2 with hall | ⟨f, g, hp, hc⟩
        · exact .inl (eqv_object.mpr ⟨d, _, rfl, hclass, hall⟩)
        · exact .inr (.record hp hc)
      · exact .inr (.classes h.1 hclass hopen hopen')
    · exact .inr hclash

theorem key_eqv_or_clash {k r b : Value} (hg : ∀ g ∈ keyFields k r b, EqualOrClashes g.2) :
    EqualOrClashes (.key k r b) := by
  intro w hw h
  by_cases hh : (key k r b).hashable = true
  · rw [freeze_of_hashable hh] at h
    obtain ⟨_, _, _, hfw, -⟩ := eqv_key.mp h
    have hself : w.freeze = w :=
      hw.freeze_eq_self_of (by simp [hfw, container?]) (by rw [hfw]; rfl)
    exact .inl (hself ▸ h)
  · rw [freeze_key (Bool.eq_false_iff.mpr hh)] at h
    obtain ⟨ys, hfw, -⟩ := eqv_tuple.mp h
    obtain ⟨hsame, hnot⟩ | hclash := hw.same_or_clash (v := .key k r b) rfl hfw
    · obtain ⟨k', r', b', rfl⟩ := key_of_container hsame
      obtain ⟨hk', hr', hb'⟩ := hw.of_key
      rw [freeze_key (hnot (by decide)), pair_eqv] at h
      have hfields : ∀ g ∈ keyFields k' r' b', g.2.IsStructured := by
        simp [keyFields, hk', hr', hb']
      rcases fields_eqv_or_clash hg hfields h.2 with hall | ⟨f, g, hp, hc⟩
      · simp only [keyFields, List.forall₂_cons, List.Forall₂.nil, and_true] at hall
        exact .inl (eqv_key.mpr ⟨_, _, _, rfl, hall⟩)
      · refine .inr (.key ?_ hc)
        simp only [keyFields, List.zip_cons_cons, List.zip_nil_right, List.mem_cons,
          List.not_mem_nil, or_false, Prod.mk.injEq] at hp ⊢
        obtain ⟨rfl, rfl⟩ | ⟨rfl, rfl⟩ | ⟨rfl, rfl⟩ := hp <;> simp
    · exact .inr hclash

/-- Structured values with equal stand-ins are equal or clash. -/
theorem IsStructured.eqv_or_clash (hv : v.IsStructured) : EqualOrClashes v := by
  induction hv with
  | atom ha _ hh => exact atom_eqv_or_clash ha hh
  | list _ ih => exact list_eqv_or_clash ih
  | tuple _ ih => exact tuple_eqv_or_clash ih
  | members hm hxs hh hd => exact members_eqv_or_clash (.members hm hxs hh hd) hm
  | map hk hval hh hd _ ihv => exact map_eqv_or_clash (.map hk hval hh hd) ihv
  | record hs hfs ih => exact record_eqv_or_clash (.record hs hfs) ih
  | key _ _ _ ihk ihr ihb =>
    refine key_eqv_or_clash ?_
    simp only [keyFields, List.forall_mem_cons, List.not_mem_nil, false_imp_iff, implies_true,
      and_true]
    exact ⟨ihk, ihr, ihb⟩

end RuleEngine.Value
