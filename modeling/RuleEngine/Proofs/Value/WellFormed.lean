import RuleEngine.Fact.Frozen
import RuleEngine.Proofs.StableSort
import RuleEngine.Proofs.Value.Equality
import RuleEngine.Proofs.Value.Overlong

/-!
# Values as they can be built

Not every term of type `Value` is a value that a program can hold. `Value.WellFormed` is what the
functions that build values see to: members of sets and keys of maps are hashable and differ from
each other, and a name that was given as a member of an enumeration has the text of that member.
Unlike `Value.Proper` it has nothing against doubles that are not a number.

* `freeze_of_hashable`: a hashable value is its own stand-in.
* `Proper.freeze`: the stand-in of a proper value is proper. In a set this needs the members to be
  hashable; otherwise two different members might get the same stand-in.
-/

namespace RuleEngine

/-- The text of the name is that of the value it was given as. -/
def Name.WellFormed (n : Name) : Prop := n.value.text? = some n.text

theorem Value.name?_wellFormed {v : Value} {n : Name} (h : v.name? = some n) : n.WellFormed := by
  cases v with
  | text s =>
    cases h
    rfl
  | member m =>
    obtain ⟨e, name, p⟩ := m
    cases p <;> cases h
    rfl
  | _ => cases h

namespace Value

variable {v : Value} {xs : List Value} {es : List (Value × Value)} {fs : List (String × Value)}

/-- A value as it can be built. -/
inductive WellFormed : Value → Prop where
  | atom {v : Value} {a : Atom} (atom : v.atom? = some a)
      (name : ∀ n, v = .var n → n.WellFormed) : WellFormed v
  | list {xs : List Value} (items : ∀ x ∈ xs, WellFormed x) : WellFormed (.list xs)
  | tuple {xs : List Value} (items : ∀ x ∈ xs, WellFormed x) : WellFormed (.tuple xs)
  | members {v : Value} {xs : List Value} (members : v.members? = some xs)
      (items : ∀ x ∈ xs, WellFormed x) (hashable : ∀ x ∈ xs, x.hashable = true)
      (distinct : xs.Pairwise fun x y => eqv x y = false) : WellFormed v
  | map {es : List (Value × Value)} (keys : ∀ e ∈ es, WellFormed e.1)
      (values : ∀ e ∈ es, WellFormed e.2) (hashable : ∀ e ∈ es, e.1.hashable = true)
      (distinct : es.Pairwise fun e f => eqv e.1 f.1 = false) : WellFormed (.map es)
  | object {c : ObjectClass} {fs : List (String × Value)} (fields : ∀ f ∈ fs, WellFormed f.2) :
      WellFormed (.object c fs)
  | key {k r b : Value} (kind : WellFormed k) (ref : WellFormed r) (byContent : WellFormed b) :
      WellFormed (.key k r b)
  | method {o : Value} {n : String} (owner : WellFormed o) : WellFormed (.method o n)

theorem wellFormed_text (s : String) : (text s).WellFormed := .atom rfl (by simp)

/-! ## Parts of well-formed and of proper values -/

theorem WellFormed.of_list (h : (Value.list xs).WellFormed) : ∀ x ∈ xs, x.WellFormed := by
  cases h with
  | atom ha => cases ha
  | members hm => cases hm
  | list hxs => exact hxs

theorem WellFormed.of_tuple (h : (Value.tuple xs).WellFormed) : ∀ x ∈ xs, x.WellFormed := by
  cases h with
  | atom ha => cases ha
  | members hm => cases hm
  | tuple hxs => exact hxs

theorem WellFormed.of_members (hm : v.members? = some xs) (h : v.WellFormed) :
    ∀ x ∈ xs, x.WellFormed ∧ x.hashable = true := by
  cases h with
  | members hm' hxs hhash =>
    obtain rfl := Option.some.inj (hm.symm.trans hm')
    exact fun x hx => ⟨hxs x hx, hhash x hx⟩
  | atom ha =>
    cases v with
    | set | frozenSet => cases ha
    | _ => cases hm
  | _ => cases hm

theorem WellFormed.of_map (h : (Value.map es).WellFormed) :
    (∀ e ∈ es, e.1.WellFormed) ∧ (∀ e ∈ es, e.2.WellFormed) ∧
      (∀ e ∈ es, e.1.hashable = true) ∧ es.Pairwise fun e f => eqv e.1 f.1 = false := by
  cases h with
  | atom ha => cases ha
  | members hm => cases hm
  | map hk hv hh hd => exact ⟨hk, hv, hh, hd⟩

theorem WellFormed.of_object {c : ObjectClass} (h : (Value.object c fs).WellFormed) :
    ∀ f ∈ fs, f.2.WellFormed := by
  cases h with
  | atom ha => cases ha
  | members hm => cases hm
  | object hfs => exact hfs

theorem WellFormed.of_key {k r b : Value} (h : (Value.key k r b).WellFormed) :
    k.WellFormed ∧ r.WellFormed ∧ b.WellFormed := by
  cases h with
  | atom ha => cases ha
  | members hm => cases hm
  | key hk hr hb => exact ⟨hk, hr, hb⟩

theorem Proper.of_tuple (h : (Value.tuple xs).Proper) : ∀ x ∈ xs, x.Proper := by
  cases h with
  | atom ha => cases ha
  | members hm => cases hm
  | tuple hxs => exact hxs

theorem Proper.of_object {c : ObjectClass} (h : (Value.object c fs).Proper) :
    ∀ f ∈ fs, f.2.Proper := by
  cases h with
  | atom ha => cases ha
  | members hm => cases hm
  | object hfs => exact hfs

/-! ## Hashable values -/

theorem unhashableItem?_eq_none : unhashableItem? xs = Option.none ↔
    ∀ x ∈ xs, x.hashable = true := by
  induction xs with
  | nil => exact iff_of_true rfl fun _ hx => nomatch hx
  | cons x xs ih =>
    rw [unhashableItem?, Option.or_eq_none_iff, ih, List.forall_mem_cons, hashable,
      Option.isNone_iff_eq_none]

theorem freezeAll_eq_map (xs : List Value) : freezeAll xs = xs.map freeze := by
  induction xs with
  | nil => rfl
  | cons x xs ih => rw [freezeAll, ih, List.map_cons]

theorem freezeAll_eq_self (h : ∀ x ∈ xs, x.freeze = x) : freezeAll xs = xs := by
  rw [freezeAll_eq_map, List.map_congr_left h, List.map_id']

/-- A hashable value is its own stand-in. -/
theorem freeze_of_hashable (h : v.hashable = true) : v.freeze = v := by
  induction v using induct with
  | atom v _ ha =>
    cases v with
    | buffer => cases h
    | _ => first | rfl | cases ha
  | list => cases h
  | tuple xs ih =>
    have hxs := unhashableItem?_eq_none.mp (Option.isNone_iff_eq_none.mp h)
    rw [freeze, freezeAll_eq_self fun x hx => ih x hx (hxs x hx)]
  | members v xs hm ih =>
    cases v with
    | frozenSet =>
      cases hm
      have hxs := unhashableItem?_eq_none.mp (Option.isNone_iff_eq_none.mp h)
      rw [freeze, freezeAll_eq_self fun x hx => ih x hx (hxs x hx)]
    | set => cases h
    | _ => cases hm
  | map => cases h
  | object => rw [freeze, if_pos h]
  | key => rw [freeze, if_pos h]
  | method => rfl

/-! ## Stand-ins of proper values -/

theorem proper_text (s : String) : (text s).Proper := .atom rfl (by simp)

theorem proper_bool (b : Bool) : (bool b).Proper := .atom rfl (by simp)

theorem frozenDigest_proper (v : Value) : v.frozenDigest.Proper := by
  refine .tuple fun x hx => ?_
  rcases List.mem_pair.mp hx with rfl | rfl
  · exact proper_text _
  · exact proper_text _

/-- A list of stand-ins under a tag, as maps and records have it, is proper. -/
theorem tagged_proper {tag : String} (h : ∀ x ∈ xs, x.Proper) :
    (tuple [text tag, tuple xs]).Proper := by
  refine .tuple fun x hx => ?_
  rcases List.mem_pair.mp hx with rfl | rfl
  · exact proper_text _
  · exact .tuple h

theorem pair_proper {x y : Value} (hx : x.Proper) (hy : y.Proper) : (tuple [x, y]).Proper := by
  refine .tuple fun z hz => ?_
  rcases List.mem_pair.mp hz with rfl | rfl
  · exact hx
  · exact hy

theorem mem_sortOn {α : Type} {f : α → String} {x : α} {xs : List α} :
    x ∈ Text.sortOn f xs ↔ x ∈ xs := by
  simp [Text.sortOn, (StableSort.sort_perm _ _).mem_iff]

theorem freezeEntries_eq_map (es : List (Value × Value)) :
    freezeEntries es = es.map fun e => tuple [e.1.freeze, e.2.freeze] := by
  induction es with
  | nil => rfl
  | cons e es ih => rw [freezeEntries, ih, List.map_cons]

theorem freezeFields_eq_map (fs : List (String × Value)) :
    freezeFields fs = fs.map fun f => tuple [text f.1, f.2.freeze] := by
  induction fs with
  | nil => rfl
  | cons f fs ih => rw [freezeFields, ih, List.map_cons]

theorem freezeAll_proper (h : ∀ x ∈ xs, x.freeze.Proper) : ∀ y ∈ freezeAll xs, y.Proper := by
  rw [freezeAll_eq_map, List.forall_mem_map]
  exact h

theorem freezeEntries_proper (hk : ∀ e ∈ es, e.1.freeze.Proper) (hv : ∀ e ∈ es, e.2.freeze.Proper) :
    ∀ y ∈ freezeEntries es, y.Proper := by
  rw [freezeEntries_eq_map, List.forall_mem_map]
  exact fun e he => pair_proper (hk e he) (hv e he)

theorem freezeFields_proper (h : ∀ f ∈ fs, f.2.freeze.Proper) :
    ∀ y ∈ freezeFields fs, y.Proper := by
  rw [freezeFields_eq_map, List.forall_mem_map]
  exact fun f hf => pair_proper (proper_text f.1) (h f hf)

theorem Proper.freeze (h : v.Proper) (hw : v.WellFormed) : v.freeze.Proper := by
  induction h with
  | @atom v _ ha hn =>
    cases v with
    | buffer bs => exact frozenDigest_proper (.buffer bs)
    | _ => first | exact .atom ha hn | cases ha
  | list _ ih =>
    exact .tuple (freezeAll_proper fun x hx => ih x hx (hw.of_list x hx))
  | tuple _ ih =>
    exact .tuple (freezeAll_proper fun x hx => ih x hx (hw.of_tuple x hx))
  | @members v xs hm hxs hd ih =>
    -- the members are their own stand-ins, so they stay different
    have hself : freezeAll xs = xs := freezeAll_eq_self fun x hx =>
      freeze_of_hashable (hw.of_members hm x hx).2
    cases v with
    | set | frozenSet =>
      cases hm
      rw [Value.freeze, hself]
      exact .members rfl hxs hd
    | _ => cases hm
  | @map es _ _ _ ihk ihv =>
    obtain ⟨hk, hv, -, -⟩ := hw.of_map
    have hfrozen := freezeEntries_proper (fun e he => ihk e he (hk e he))
      fun e he => ihv e he (hv e he)
    exact tagged_proper fun x hx => hfrozen x (mem_sortOn.mp hx)
  | @object c fs hfs ih =>
    have hfrozen := freezeFields_proper fun f hf => ih f hf (hw.of_object f hf)
    rw [Value.freeze]
    split
    · exact .object hfs
    · split
      · exact tagged_proper hfrozen
      · exact frozenDigest_proper _
  | key hk hr hb ihk ihr ihb =>
    obtain ⟨wk, wr, wb⟩ := hw.of_key
    rw [Value.freeze]
    split
    · exact .key hk hr hb
    · refine tagged_proper fun x hx => ?_
      simp only [List.mem_cons, List.not_mem_nil, or_false] at hx
      rcases hx with rfl | rfl | rfl
      · exact pair_proper (proper_text _) (ihk wk)
      · exact pair_proper (proper_text _) (ihr wr)
      · exact pair_proper (proper_text _) (ihb wb)
  | method ho => exact .method ho

end Value

end RuleEngine
