import RuleEngine.Proofs.Matching
import RuleEngine.Value.Equality

/-!
# Equality of values is an equivalence

The equality that rules see crosses types: `1`, `1.0` and `true` are equal, so are a text and the
enumeration member that stands for it, sets are compared as sets and maps entry by entry. Two things
can go wrong. A double that is not a number differs from itself, and a list that repeats a member is
no set. `Value.Proper` says that neither occurs anywhere in a value.

What is proved by induction is `Value.IsSteady`: a value equals itself, and whatever it equals, it
equals with everything else. Symmetry and transitivity are two readings of it. Only the first of the
values compared has to be proper.

* `same_iff`: values that are one and the same have one representation.
* `eqvAll_iff`, `eqvFields_iff`, `eqvSubset_iff`, `eqvEntries_iff`: what the comparisons of parts
  say.
* `Proper.isSteady`: proper values are steady; `Proper.refl`, `Proper.symm`, `Proper.trans`.
-/

namespace RuleEngine

theorem Atom.eqv_eq {a b : Atom} (h : a.eqv b = true) : a = b := by
  cases a with
  | number m =>
    cases b with
    | number n => cases m <;> simp_all [Atom.eqv, Number.eqv]
    | _ => simp [Atom.eqv] at h
  | _ => simpa [Atom.eqv] using h

theorem Atom.eqv_self {a : Atom} (h : a ≠ .number .nan) : a.eqv a = true := by
  cases a with
  | number n => cases n <;> simp_all [Atom.eqv, Number.eqv]
  | _ => simp [Atom.eqv]

namespace Value

/-! ## Sameness -/

theorem sameAtom_iff {v w : Value} (hv : sameAtom v v = true) : sameAtom v w = true ↔ v = w := by
  refine ⟨fun h => ?_, fun h => h ▸ hv⟩
  unfold sameAtom at h
  split at h <;> simp_all

mutual

/-- What is the same has one representation. -/
theorem same_iff (v w : Value) : same v w = true ↔ v = w := by
  have hdiffer {p : Prop} (hp : ¬ p) : false = true ↔ p := iff_of_false Bool.false_ne_true hp
  cases v with
  | list xs => cases w with
    | list ys => exact (sameAll_iff xs ys).trans (by rw [list.injEq])
    | _ => exact hdiffer nofun
  | tuple xs => cases w with
    | tuple ys => exact (sameAll_iff xs ys).trans (by rw [tuple.injEq])
    | _ => exact hdiffer nofun
  | set xs => cases w with
    | set ys => exact (sameAll_iff xs ys).trans (by rw [set.injEq])
    | _ => exact hdiffer nofun
  | frozenSet xs => cases w with
    | frozenSet ys => exact (sameAll_iff xs ys).trans (by rw [frozenSet.injEq])
    | _ => exact hdiffer nofun
  | map es => cases w with
    | map fs => exact (sameEntries_iff es fs).trans (by rw [map.injEq])
    | _ => exact hdiffer nofun
  | object c fs => cases w with
    | object d gs =>
      change (decide (c = d) && sameFields fs gs) = true ↔ _
      rw [Bool.and_eq_true, decide_eq_true_iff, sameFields_iff fs gs, object.injEq]
    | _ => exact hdiffer nofun
  | key k r b => cases w with
    | key k' r' b' =>
      change (same k k' && same r r' && same b b') = true ↔ _
      rw [Bool.and_eq_true, Bool.and_eq_true, same_iff k k', same_iff r r', same_iff b b',
        and_assoc, key.injEq]
    | _ => exact hdiffer nofun
  | method o n => cases w with
    | method o' n' =>
      change (n == n' && same o o') = true ↔ _
      rw [Bool.and_eq_true, beq_iff_eq, same_iff o o', and_comm, method.injEq]
    | _ => exact hdiffer nofun
  | _ => exact sameAtom_iff (by simp [sameAtom])
termination_by structural v

theorem sameAll_iff (xs ys : List Value) : sameAll xs ys = true ↔ xs = ys := by
  cases xs with
  | nil => exact List.isEmpty_iff.trans eq_comm
  | cons x xs => cases ys with
    | nil => exact iff_of_false Bool.false_ne_true nofun
    | cons y ys =>
      change (same x y && sameAll xs ys) = true ↔ _
      rw [Bool.and_eq_true, same_iff x y, sameAll_iff xs ys, List.cons.injEq]
termination_by structural xs

theorem sameEntries_iff (es fs : List (Value × Value)) : sameEntries es fs = true ↔ es = fs := by
  cases es with
  | nil => exact List.isEmpty_iff.trans eq_comm
  | cons e es =>
    obtain ⟨k, v⟩ := e
    cases fs with
    | nil => exact iff_of_false Bool.false_ne_true nofun
    | cons f fs =>
      change (same k f.1 && same v f.2 && sameEntries es fs) = true ↔ _
      rw [Bool.and_eq_true, Bool.and_eq_true, same_iff k f.1, same_iff v f.2,
        sameEntries_iff es fs, List.cons.injEq, Prod.ext_iff]
termination_by structural es

theorem sameFields_iff (fs gs : List (String × Value)) : sameFields fs gs = true ↔ fs = gs := by
  cases fs with
  | nil => exact List.isEmpty_iff.trans eq_comm
  | cons f fs =>
    obtain ⟨m, v⟩ := f
    cases gs with
    | nil => exact iff_of_false Bool.false_ne_true nofun
    | cons g gs =>
      change (m == g.1 && same v g.2 && sameFields fs gs) = true ↔ _
      rw [Bool.and_eq_true, Bool.and_eq_true, beq_iff_eq, same_iff v g.2, sameFields_iff fs gs,
        List.cons.injEq, Prod.ext_iff]
termination_by structural fs

end

/-! ## Comparing parts -/

theorem eqvAll_cons {x y : Value} {xs ys : List Value} :
    eqvAll (x :: xs) (y :: ys) = (eqv x y && eqvAll xs ys) := rfl

theorem eqvAll_iff {xs ys : List Value} :
    eqvAll xs ys = true ↔ List.Forall₂ (fun x y => eqv x y = true) xs ys := by
  induction xs generalizing ys with
  | nil =>
    cases ys with
    | nil => exact iff_of_true rfl .nil
    | cons y ys => exact iff_of_false Bool.false_ne_true (by simp)
  | cons x xs ih =>
    cases ys with
    | nil => exact iff_of_false Bool.false_ne_true (by simp)
    | cons y ys => rw [eqvAll_cons, Bool.and_eq_true, ih, List.forall₂_cons]

theorem eqvFields_cons {f g : String × Value} {fs gs : List (String × Value)} :
    eqvFields (f :: fs) (g :: gs) = (eqv f.2 g.2 && eqvFields fs gs) := rfl

theorem eqvFields_iff {fs gs : List (String × Value)} :
    eqvFields fs gs = true ↔ List.Forall₂ (fun f g => eqv f.2 g.2 = true) fs gs := by
  induction fs generalizing gs with
  | nil =>
    cases gs with
    | nil => exact iff_of_true rfl .nil
    | cons g gs => exact iff_of_false Bool.false_ne_true (by simp)
  | cons f fs ih =>
    cases gs with
    | nil => exact iff_of_false Bool.false_ne_true (by simp)
    | cons g gs => rw [eqvFields_cons, Bool.and_eq_true, ih, List.forall₂_cons]

theorem eqvSubset_cons {x : Value} {xs ys : List Value} :
    eqvSubset (x :: xs) ys = (ys.any (fun y => eqv x y) && eqvSubset xs ys) := rfl

theorem eqvSubset_iff {xs ys : List Value} :
    eqvSubset xs ys = true ↔ ∀ x ∈ xs, ∃ y ∈ ys, eqv x y = true := by
  induction xs with
  | nil => exact iff_of_true rfl fun _ h => nomatch h
  | cons x xs ih =>
    rw [eqvSubset_cons, Bool.and_eq_true, List.any_eq_true, ih, List.forall_mem_cons]

/-- Whether the entry is the first of a map whose key equals the one of another map's entry, and has
the same value. -/
def Finds (fs : List (Value × Value)) (e f : Value × Value) : Prop :=
  fs.find? (fun g => eqv e.1 g.1) = some f ∧ eqv e.2 f.2 = true

theorem eqvEntries_cons {e : Value × Value} {es fs : List (Value × Value)} :
    eqvEntries (e :: es) fs = ((match fs.find? (fun f => eqv e.1 f.1) with
      | some f => eqv e.2 f.2
      | Option.none => false) && eqvEntries es fs) := rfl

theorem eqvEntries_iff {es fs : List (Value × Value)} :
    eqvEntries es fs = true ↔ ∀ e ∈ es, ∃ f ∈ fs, Finds fs e f := by
  induction es with
  | nil => exact iff_of_true rfl fun _ h => nomatch h
  | cons e es ih =>
    rw [eqvEntries_cons, Bool.and_eq_true, ih, List.forall_mem_cons]
    refine and_congr_left fun _ => ?_
    constructor
    · intro h
      split at h
      · rename_i f hf
        exact ⟨f, List.mem_of_find?_eq_some hf, hf, h⟩
      · cases h
    · rintro ⟨f, -, hf, hv⟩
      rw [hf]
      exact hv

/-! ## Comparing values -/

variable {u v w : Value}

theorem eqv_of_atom {a : Atom} (h : v.atom? = some a) :
    v.eqv w = true ↔ a ≠ .number .nan ∧ w.atom? = some a := by
  have hv : v.eqv w = eqvAtom v w := by
    cases v <;> first | rfl | cases h
  rw [hv, eqvAtom, h]
  cases hw : w.atom? with
  | none => simp
  | some b =>
    simp only [Option.some.injEq]
    constructor
    · intro he
      refine ⟨?_, (Atom.eqv_eq he).symm⟩
      rintro rfl
      cases b <;> simp [Atom.eqv, Number.eqv] at he
    · rintro ⟨hn, rfl⟩
      exact Atom.eqv_self hn

theorem eqv_list {xs : List Value} : (list xs).eqv w = true ↔
    ∃ ys, w = .list ys ∧ List.Forall₂ (fun x y => eqv x y = true) xs ys := by
  cases w with
  | list ys =>
    change eqvAll xs ys = true ↔ _
    simp only [eqvAll_iff, list.injEq, exists_eq_left']
  | _ => exact iff_of_false Bool.false_ne_true (by simp)

theorem eqv_tuple {xs : List Value} : (tuple xs).eqv w = true ↔
    ∃ ys, w = .tuple ys ∧ List.Forall₂ (fun x y => eqv x y = true) xs ys := by
  cases w with
  | tuple ys =>
    change eqvAll xs ys = true ↔ _
    simp only [eqvAll_iff, tuple.injEq, exists_eq_left']
  | _ => exact iff_of_false Bool.false_ne_true (by simp)

theorem eqv_of_members {xs : List Value} (h : v.members? = some xs) : v.eqv w = true ↔
    ∃ ys, w.members? = some ys ∧ xs.length = ys.length ∧ ∀ x ∈ xs, ∃ y ∈ ys, eqv x y = true := by
  cases v with
  | set zs | frozenSet zs =>
    have hz : zs = xs := Option.some.inj h
    subst hz
    cases w with
    | set ys | frozenSet ys =>
      change (zs.length == ys.length && eqvSubset zs ys) = true ↔ _
      simp only [Bool.and_eq_true, beq_iff_eq, eqvSubset_iff, members?, Option.some.injEq,
        exists_eq_left']
    | _ => exact iff_of_false Bool.false_ne_true fun ⟨_, h, _⟩ => nomatch h
  | _ => cases h

theorem eqv_map {es : List (Value × Value)} : (map es).eqv w = true ↔
    ∃ fs, w = .map fs ∧ es.length = fs.length ∧ ∀ e ∈ es, ∃ f ∈ fs, Finds fs e f := by
  cases w with
  | map fs =>
    change (es.length == fs.length && eqvEntries es fs) = true ↔ _
    simp only [Bool.and_eq_true, beq_iff_eq, eqvEntries_iff, map.injEq, exists_eq_left']
  | _ => exact iff_of_false Bool.false_ne_true (by simp)

theorem eqv_object {c : ObjectClass} {fs : List (String × Value)} : (object c fs).eqv w = true ↔
    ∃ d gs, w = .object d gs ∧ c.identity = d.identity ∧
      List.Forall₂ (fun f g => eqv f.2 g.2 = true) fs gs := by
  cases w with
  | object d gs =>
    change (c.identity == d.identity && eqvFields fs gs) = true ↔ _
    rw [Bool.and_eq_true, beq_iff_eq, eqvFields_iff]
    constructor
    · exact fun h => ⟨d, gs, rfl, h⟩
    · rintro ⟨_, _, ⟨⟩, h⟩
      exact h
  | _ => exact iff_of_false Bool.false_ne_true (by simp)

theorem eqv_key {k r b : Value} : (key k r b).eqv w = true ↔
    ∃ k' r' b', w = .key k' r' b' ∧ eqv k k' = true ∧ eqv r r' = true ∧ eqv b b' = true := by
  cases w with
  | key k' r' b' =>
    change (eqv k k' && eqv r r' && eqv b b') = true ↔ _
    rw [Bool.and_eq_true, Bool.and_eq_true, and_assoc]
    constructor
    · exact fun h => ⟨k', r', b', rfl, h⟩
    · rintro ⟨_, _, _, ⟨⟩, h⟩
      exact h
  | _ => exact iff_of_false Bool.false_ne_true (by simp)

theorem eqv_method {o : Value} {n : String} :
    (method o n).eqv w = true ↔ w = .method o n := by
  cases w with
  | method o' n' =>
    change (n == n' && same o o') = true ↔ _
    rw [Bool.and_eq_true, beq_iff_eq, same_iff, and_comm, method.injEq, eq_comm, @eq_comm _ n]
  | _ => exact iff_of_false Bool.false_ne_true (by simp)

/-- What equals a value without parts is the same atom. -/
theorem atom_of_eqv {a : Atom} (h : v.eqv w = true) (hw : w.atom? = some a) : v.atom? = some a := by
  cases ha : v.atom? with
  | some a' => rw [← hw, ((eqv_of_atom ha).mp h).2]
  | none =>
    -- what has parts only equals what has parts of the same sort
    cases v with
    | list => obtain ⟨_, rfl, -⟩ := eqv_list.mp h; cases hw
    | tuple => obtain ⟨_, rfl, -⟩ := eqv_tuple.mp h; cases hw
    | map => obtain ⟨_, rfl, -⟩ := eqv_map.mp h; cases hw
    | object => obtain ⟨_, _, rfl, -⟩ := eqv_object.mp h; cases hw
    | key => obtain ⟨_, _, _, rfl, -⟩ := eqv_key.mp h; cases hw
    | method => obtain rfl := eqv_method.mp h; cases hw
    | set xs | frozenSet xs =>
      have hmem : ∃ ys, w.members? = some ys ∧ _ := (eqv_of_members rfl).mp h
      obtain ⟨_, hm, -⟩ := hmem
      cases w with
      | set | frozenSet => cases hw
      | _ => cases hm
    | member m =>
      obtain ⟨e, n, p⟩ := m
      cases p <;> cases ha
    | _ => cases ha

/-! ## Proper values -/

/-- A value without not-a-number and without two equal members of a set or keys of a map. -/
inductive Proper : Value → Prop where
  | atom {v : Value} {a : Atom} (atom : v.atom? = some a) (ne : a ≠ .number .nan) : Proper v
  | list {xs : List Value} (items : ∀ x ∈ xs, Proper x) : Proper (.list xs)
  | tuple {xs : List Value} (items : ∀ x ∈ xs, Proper x) : Proper (.tuple xs)
  | members {v : Value} {xs : List Value} (members : v.members? = some xs)
      (proper : ∀ x ∈ xs, Proper x) (distinct : xs.Pairwise fun x y => eqv x y = false) : Proper v
  | map {es : List (Value × Value)} (keys : ∀ e ∈ es, Proper e.1) (values : ∀ e ∈ es, Proper e.2)
      (distinct : es.Pairwise fun e f => eqv e.1 f.1 = false) : Proper (.map es)
  | object {c : ObjectClass} {fs : List (String × Value)} (fields : ∀ f ∈ fs, Proper f.2) :
      Proper (.object c fs)
  | key {k r b : Value} (kind : Proper k) (ref : Proper r) (byContent : Proper b) :
      Proper (.key k r b)
  | method {o : Value} {n : String} (owner : Proper o) : Proper (.method o n)

/-- The value equals itself, and whatever it equals, it equals with everything else. -/
structure IsSteady (v : Value) : Prop where
  refl : v.eqv v = true
  congr : ∀ {w : Value}, v.eqv w = true → ∀ u, w.eqv u = v.eqv u

theorem IsSteady.of {v : Value} (hr : v.eqv v = true)
    (hc : ∀ w, v.eqv w = true → ∀ u, w.eqv u = true ↔ v.eqv u = true) : v.IsSteady :=
  ⟨hr, fun h u => Bool.eq_iff_iff.mpr (hc _ h u)⟩

theorem IsSteady.symm (hv : v.IsSteady) (h : v.eqv w = true) : w.eqv v = true := by
  rw [hv.congr h, hv.refl]

theorem IsSteady.join (hv : v.IsSteady) (hw : w.IsSteady) (h : v.eqv u = true)
    (k : w.eqv u = true) : v.eqv w = true := by
  rw [← hv.congr h, hw.congr k, hw.refl]

/-! ### Lists of steady parts -/

theorem forall₂_refl {α : Type} {g : α → Value} {xs : List α}
    (hs : ∀ x ∈ xs, (g x).IsSteady) :
    List.Forall₂ (fun x y => (g x).eqv (g y) = true) xs xs :=
  List.forall₂_same.mpr fun x hx => (hs x hx).refl

theorem forall₂_congr {α : Type} {g : α → Value} {xs ys zs : List α}
    (hs : ∀ x ∈ xs, (g x).IsSteady)
    (h : List.Forall₂ (fun x y => (g x).eqv (g y) = true) xs ys) :
    List.Forall₂ (fun x y => (g x).eqv (g y) = true) ys zs ↔
      List.Forall₂ (fun x y => (g x).eqv (g y) = true) xs zs := by
  induction h generalizing zs with
  | nil => rfl
  | @cons x y xs ys hxy _ ih =>
    cases zs with
    | nil => simp
    | cons z zs =>
      simp only [List.forall₂_cons, (hs x List.mem_cons_self).congr hxy,
        ih fun a ha => hs a (List.mem_cons_of_mem _ ha)]

/-! ### Sets of steady members -/

/-- Of a set whose members all have equal ones in a set of the same size, none is without. -/
theorem members_partner {xs ys : List Value} (hs : ∀ x ∈ xs, x.IsSteady)
    (hd : xs.Pairwise fun x y => eqv x y = false) (hl : xs.length = ys.length)
    (h : ∀ x ∈ xs, ∃ y ∈ ys, eqv x y = true) : ∀ y ∈ ys, ∃ x ∈ xs, eqv x y = true := by
  refine exists_partner (Nat.le_of_eq hl.symm) ?_ h
  refine hd.imp_of_mem fun hx hx' hne y hxy hxy' => ?_
  rw [(hs _ hx).join (hs _ hx') hxy hxy'] at hne
  cases hne

theorem members_congr {xs ys zs : List Value} (hs : ∀ x ∈ xs, x.IsSteady)
    (hd : xs.Pairwise fun x y => eqv x y = false) (hl : xs.length = ys.length)
    (h : ∀ x ∈ xs, ∃ y ∈ ys, eqv x y = true) :
    (∀ y ∈ ys, ∃ z ∈ zs, eqv y z = true) ↔ ∀ x ∈ xs, ∃ z ∈ zs, eqv x z = true := by
  constructor
  · intro hyz x hx
    obtain ⟨y, hy, hxy⟩ := h x hx
    obtain ⟨z, hz, hyz⟩ := hyz y hy
    exact ⟨z, hz, (hs x hx).congr hxy z ▸ hyz⟩
  · intro hxz y hy
    obtain ⟨x, hx, hxy⟩ := members_partner hs hd hl h y hy
    obtain ⟨z, hz, hxz⟩ := hxz x hx
    exact ⟨z, hz, (hs x hx).congr hxy z ▸ hxz⟩

/-! ### Maps of steady entries -/

theorem finds_self {es : List (Value × Value)} (hk : ∀ e ∈ es, e.1.IsSteady)
    (hv : ∀ e ∈ es, e.2.IsSteady) (hd : es.Pairwise fun e f => eqv e.1 f.1 = false)
    {e : Value × Value} (he : e ∈ es) : Finds es e e := by
  refine ⟨?_, (hv e he).refl⟩
  obtain ⟨as, bs, rfl⟩ := List.append_of_mem he
  have hne : ∀ a ∈ as, eqv a.1 e.1 = false := fun a ha =>
    (List.pairwise_append.mp hd).2.2 a ha e List.mem_cons_self
  have hna : as.find? (fun g => eqv e.1 g.1) = Option.none := by
    refine List.find?_eq_none.mpr fun a ha h => ?_
    have hn := hne a ha
    rw [(hk e he).symm h] at hn
    cases hn
  have hpos : eqv e.1 e.1 = true := (hk e he).refl
  simp only [List.find?_append, hna, List.find?_cons, hpos, Option.none_or]

theorem Finds.key {fs : List (Value × Value)} {e f : Value × Value} (h : Finds fs e f) :
    eqv e.1 f.1 = true := List.find?_some (p := fun g : Value × Value => eqv e.1 g.1) h.1

/-- A key that equals one of a map with different keys finds the entry under that key. -/
theorem find_of_mem {fs : List (Value × Value)} {k : Value} {f : Value × Value}
    (hk : ∀ f ∈ fs, f.1.IsSteady) (hv : ∀ f ∈ fs, f.2.IsSteady)
    (hd : fs.Pairwise fun e f => eqv e.1 f.1 = false) (hs : k.IsSteady) (hf : f ∈ fs)
    (h : eqv k f.1 = true) : fs.find? (fun g => eqv k g.1) = some f := by
  rw [← (finds_self hk hv hd hf).1]
  simp only [hs.congr h]

theorem Finds.congr {fs gs : List (Value × Value)} {e f g : Value × Value}
    (hk : e.1.IsSteady) (hv : e.2.IsSteady) (h : Finds fs e f) : Finds gs f g ↔ Finds gs e g := by
  simp only [Finds, hk.congr h.key, hv.congr h.2]

/-- No two entries of a map with different keys find the same entry. -/
theorem entries_own {es fs : List (Value × Value)} (hk : ∀ e ∈ es, e.1.IsSteady)
    (hd : es.Pairwise fun e f => eqv e.1 f.1 = false) :
    es.Pairwise fun e e' => ∀ f, Finds fs e f → ¬ Finds fs e' f := by
  refine hd.imp_of_mem fun he he' hne f hf hf' => ?_
  rw [(hk _ he).join (hk _ he') hf.key hf'.key] at hne
  cases hne

theorem entries_partner {es fs : List (Value × Value)} (hk : ∀ e ∈ es, e.1.IsSteady)
    (hd : es.Pairwise fun e f => eqv e.1 f.1 = false) (hl : es.length = fs.length)
    (h : ∀ e ∈ es, ∃ f ∈ fs, Finds fs e f) : ∀ f ∈ fs, ∃ e ∈ es, Finds fs e f :=
  exists_partner (Nat.le_of_eq hl.symm) (entries_own hk hd) h

theorem entries_matching {es fs : List (Value × Value)} (hk : ∀ e ∈ es, e.1.IsSteady)
    (hd : es.Pairwise fun e f => eqv e.1 f.1 = false) (h : (map es).eqv (map fs) = true) :
    ∃ gs, gs.Perm fs ∧
      List.Forall₂ (fun e g => eqv e.1 g.1 = true ∧ eqv e.2 g.2 = true) es gs := by
  obtain ⟨_, ⟨⟩, hl, hf⟩ := eqv_map.mp h
  obtain ⟨gs, hperm, hgs⟩ := exists_matching (Nat.le_of_eq hl.symm) (entries_own hk hd) hf
  exact ⟨gs, hperm, hgs.imp fun _ _ hef => ⟨hef.key, hef.2⟩⟩

theorem entries_congr {es fs gs : List (Value × Value)} (hk : ∀ e ∈ es, e.1.IsSteady)
    (hv : ∀ e ∈ es, e.2.IsSteady) (hd : es.Pairwise fun e f => eqv e.1 f.1 = false)
    (hl : es.length = fs.length) (h : ∀ e ∈ es, ∃ f ∈ fs, Finds fs e f) :
    (∀ f ∈ fs, ∃ g ∈ gs, Finds gs f g) ↔ ∀ e ∈ es, ∃ g ∈ gs, Finds gs e g := by
  constructor
  · intro hfg e he
    obtain ⟨f, hf, hef⟩ := h e he
    obtain ⟨g, hg, hfg⟩ := hfg f hf
    exact ⟨g, hg, (hef.congr (hk e he) (hv e he)).mp hfg⟩
  · intro heg f hf
    obtain ⟨e, he, hef⟩ := entries_partner hk hd hl h f hf
    obtain ⟨g, hg, heg⟩ := heg e he
    exact ⟨g, hg, (hef.congr (hk e he) (hv e he)).mpr heg⟩

/-! ## Equality is an equivalence -/

theorem Proper.isSteady (h : Proper v) : v.IsSteady := by
  induction h with
  | atom ha hn =>
    refine .of ((eqv_of_atom ha).mpr ⟨hn, ha⟩) fun w hw u => ?_
    rw [eqv_of_atom ha, eqv_of_atom ((eqv_of_atom ha).mp hw).2]
  | list _ ih =>
    refine .of (eqv_list.mpr ⟨_, rfl, forall₂_refl (g := id) ih⟩) fun w hw u => ?_
    obtain ⟨ys, rfl, hys⟩ := eqv_list.mp hw
    rw [eqv_list, eqv_list]
    exact exists_congr fun zs => and_congr_right fun _ => forall₂_congr (g := id) ih hys
  | tuple _ ih =>
    refine .of (eqv_tuple.mpr ⟨_, rfl, forall₂_refl (g := id) ih⟩) fun w hw u => ?_
    obtain ⟨ys, rfl, hys⟩ := eqv_tuple.mp hw
    rw [eqv_tuple, eqv_tuple]
    exact exists_congr fun zs => and_congr_right fun _ => forall₂_congr (g := id) ih hys
  | members hm _ hd ih =>
    have hself : ∀ x ∈ _, ∃ y ∈ _, eqv x y = true := fun x hx => ⟨x, hx, (ih x hx).refl⟩
    refine .of ((eqv_of_members hm).mpr ⟨_, hm, rfl, hself⟩) fun w hw u => ?_
    obtain ⟨ys, hw, hl, hys⟩ := (eqv_of_members hm).mp hw
    rw [eqv_of_members hm, eqv_of_members hw, ← hl]
    exact exists_congr fun zs => and_congr_right fun _ => and_congr_right fun _ =>
      members_congr ih hd hl hys
  | map _ _ hd ihk ihv =>
    have hself : ∀ e ∈ _, ∃ f ∈ _, Finds _ e f := fun e he => ⟨e, he, finds_self ihk ihv hd he⟩
    refine .of (eqv_map.mpr ⟨_, rfl, rfl, hself⟩) fun w hw u => ?_
    obtain ⟨fs, rfl, hl, hfs⟩ := eqv_map.mp hw
    rw [eqv_map, eqv_map, ← hl]
    exact exists_congr fun gs => and_congr_right fun _ => and_congr_right fun _ =>
      entries_congr ihk ihv hd hl hfs
  | object _ ih =>
    refine .of (eqv_object.mpr ⟨_, _, rfl, rfl, forall₂_refl ih⟩) fun w hw u => ?_
    obtain ⟨d, gs, rfl, hn, hgs⟩ := eqv_object.mp hw
    rw [eqv_object, eqv_object, ← hn]
    exact exists_congr fun _ => exists_congr fun hs => and_congr_right fun _ =>
      and_congr_right fun _ => forall₂_congr ih hgs
  | key _ _ _ ihk ihr ihb =>
    refine .of (eqv_key.mpr ⟨_, _, _, rfl, ihk.refl, ihr.refl, ihb.refl⟩) fun w hw u => ?_
    obtain ⟨k, r, b, rfl, hk, hr, hb⟩ := eqv_key.mp hw
    simp only [eqv_key, ihk.congr hk, ihr.congr hr, ihb.congr hb]
  | method =>
    refine .of (eqv_method.mpr rfl) fun w hw u => ?_
    rw [eqv_method.mp hw]

theorem Proper.refl (h : Proper v) : (v == v) = true := h.isSteady.refl

theorem Proper.symm (hv : Proper v) (h : (v == w) = true) : (w == v) = true := hv.isSteady.symm h

theorem Proper.trans (hv : Proper v) (h : (v == w) = true) (k : (w == u) = true) :
    (v == u) = true :=
  (hv.isSteady.congr h u).symm.trans k

end Value

end RuleEngine
