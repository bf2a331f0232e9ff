import RuleEngine.Proofs.Fact.Canonical
import RuleEngine.Proofs.Fact.Frozen

/-!
# Values of one class

Equal values may be instances of different classes, and so may their parts. Where both are instances
of one class, what they hold as data under a name is equal as well; where all their parts are, which
is to hold the same data, they are written alike.

* `SameClass`, `content_eqv`, `entry_eqv`: equal values of one class have equal parts.
* `SameData`: the content of two values is the same, records included. `SameData.canonical_eq`: they
  have one canonical text.
* `IsPlain.isUnfreezable_congr`, `isUnfreezable_of_hashable`: stand-ins that can be found.
-/

namespace RuleEngine

namespace Value

variable {v w : Value} {es fs : List (Value × Value)}

/-! ## Parts of equal values of one class -/

/-- The values are instances of one class. Objects of one class have the same fields in the same
order. Equality knows classes by name, so of classes that are values only one and the same
counts. -/
def SameClass : Value → Value → Prop
  | .object c fs, .object d gs => c = d ∧ fs.map (·.1) = gs.map (·.1)
  | .member m, .member n => m.enumeration = n.enumeration
  | .cls c, .cls d => c = d
  | .object .., _ | _, .object .. | .member _, _ | _, .member _ | .cls _, _ | _, .cls _ => False
  | v, w => v.className = w.className

theorem SameClass.className (h : v.SameClass w) : v.className = w.className := by
  unfold SameClass at h
  split at h
  · obtain ⟨rfl, -⟩ := h
    rfl
  · rename_i m n
    have hname (m : Member) : (member m).className = m.enumeration.name := by
      obtain ⟨e, n, p⟩ := m
      cases p <;> rfl
    rw [hname, hname, h]
  · rw [h]
  all_goals first | exact h.elim | exact h

/-- Both are missing, or both are there and equal. -/
def EqvOptions : Option Value → Option Value → Prop :=
  Option.Rel fun v w => v.eqv w = true

theorem fields_eqv {fs gs : List (String × Value)} (hnames : fs.map (·.1) = gs.map (·.1))
    (h : List.Forall₂ (fun f g => eqv f.2 g.2 = true) fs gs) (n : String) :
    EqvOptions (fs.lookup n) (gs.lookup n) := by
  induction h with
  | nil => exact .none
  | @cons f g fs gs hfg _ ih =>
    obtain ⟨hname, hrest⟩ := List.cons.inj hnames
    obtain ⟨a, x⟩ := f
    obtain ⟨b, y⟩ := g
    obtain rfl : a = b := hname
    rw [List.lookup_cons, List.lookup_cons]
    cases n == a with
    | true => exact .some hfg
    | false => exact ih hrest

theorem entry_eqv (hv : (map es).Proper) (hw : (map fs).Proper)
    (heq : (map es).eqv (map fs) = true) (n : String) :
    EqvOptions (Value.entry? (map es) n) (Value.entry? (map fs) n) := by
  obtain ⟨hkeys, -, hdistinct⟩ := Binding.proper_iff.mp hv
  have hsteady : ∀ e ∈ es, e.1.IsSteady := fun e he => (hkeys e he).isSteady
  obtain ⟨_, ⟨⟩, hlen, hfinds⟩ := eqv_map.mp heq
  change EqvOptions (Assoc.lookup (.text n) es) (Assoc.lookup (.text n) fs)
  cases hl : Assoc.lookup (.text n) es with
  | some x =>
    obtain ⟨e, he, hek, rfl⟩ := Assoc.mem_of_lookup hl
    obtain ⟨f, hf, hef⟩ := hfinds e he
    have hfk : (f.1 == .text n) = true := ((hsteady e he).congr hef.key _).trans hek
    have hfound := Assoc.lookup_isSome.trans (Assoc.contains_iff.mpr ⟨f, hf, hfk⟩)
    obtain ⟨y, hy⟩ := Option.isSome_iff_exists.mp hfound
    obtain ⟨g, hg, hgk, rfl⟩ := Assoc.mem_of_lookup hy
    obtain rfl : g = f := Binding.Proper.eq_of_key hw hg hf hgk hfk
    rw [hy]
    exact .some hef.2
  | none =>
    have hnone : Assoc.lookup (.text n) fs = Option.none := by
      refine Assoc.lookup_eq_none.mpr fun f hf => ?_
      obtain ⟨e, he, hef⟩ := entries_partner hsteady hdistinct hlen hfinds f hf
      exact ((hsteady e he).congr hef.key _).trans (Assoc.lookup_eq_none.mp hl e he)
    rw [hnone]
    exact .none

theorem EqvOptions.refl {o : Option Value} (h : ∀ v, o = some v → v.Proper) : EqvOptions o o := by
  cases o with
  | none => exact .none
  | some v => exact .some (h v rfl).refl

/-- Only objects, enumeration members and classes may hold anything under the name `id`. -/
theorem content_eq_none (hobject : ∀ c fs, v ≠ .object c fs) (hmember : ∀ m, v ≠ .member m)
    (hcls : ∀ c, v ≠ .cls c) : v.content? "id" = Option.none := by
  cases v with
  | object c fs => exact absurd rfl (hobject c fs)
  | member m => exact absurd rfl (hmember m)
  | cls c => exact absurd rfl (hcls c)
  | key k r b => rfl
  | method o n => rfl
  | _ => simp [content?, integerPart, numberPart]

theorem EqvOptions.getD {o p : Option Value} (h : EqvOptions o p) :
    (o.getD .none).eqv (p.getD .none) = true := by
  cases h with
  | none => rfl
  | some h => exact h

/-- What equal values of one class hold as data under the name `id`. -/
theorem content_eqv (hclass : v.SameClass w) (heq : v.eqv w = true) :
    EqvOptions (v.content? "id") (w.content? "id") := by
  have hmember (m : Member) : (member m).content? "id" = enumerationPart m.enumeration "id" := by
    change memberPart m "id" = _
    cases hp : enumerationPart m.enumeration "id" with
    | some u => simp [memberPart, hp]
    | none => cases hpay : m.payload <;> simp [memberPart, hp, hpay, integerPart, numberPart]
  have hcls (c : ClassInfo) : ∀ v, (cls c).content? "id" = some v → v.Proper :=
    fun v h => (enumerationPart_proper (classPart_id h)).1
  unfold SameClass at hclass
  split at hclass
  · obtain ⟨rfl, hnames⟩ := hclass
    obtain ⟨_, _, ⟨⟩, -, hfields⟩ := eqv_object.mp heq
    exact fields_eqv hnames hfields "id"
  · rw [hmember, hmember, hclass]
    exact .refl fun v h => (enumerationPart_proper h).1
  · rw [hclass]
    exact .refl (hcls _)
  all_goals first | exact hclass.elim | skip
  rename_i hobject hmember' hcls' hobject' hmember'' hcls'' _ _ _
  rw [content_eq_none hobject hmember' hcls', content_eq_none hobject' hmember'' hcls'']
  exact .none

theorem eqv_text_iff {a b : String} : (text a).eqv (.text b) = true ↔ a = b := by
  rw [eqv_of_atom rfl]
  simp [atom?, eq_comm]

/-! ## The same data -/

/-- The same data: the same content, or records of one class that hold the same data field by
field. -/
inductive SameData : Value → Value → Prop where
  | content {u v : Value} (content : u.SameContent v) : SameData u v
  | record {c : ObjectClass} {frozen : Bool} {fs gs : List (String × Value)}
      (sort : c.sort = .record frozen) (names : fs.map (·.1) = gs.map (·.1))
      (fields : ∀ f g, (f, g) ∈ fs.zip gs → SameData f.2 g.2) :
      SameData (.object c fs) (.object c gs)

theorem canonicalFields_eq_map (fs : List (String × Value)) :
    canonicalFields fs = fs.map fun f => (f.1, f.2.canonical) := by
  induction fs with
  | nil => rfl
  | cons f fs ih => rw [canonicalFields, ih, List.map_cons]

theorem SameData.canonical_eq (h : v.SameData w) : v.canonical = w.canonical := by
  induction h with
  | content h => exact h.canonical_eq
  | @record c _ fs gs hsort hnames _ ih =>
    have htext (hs : List (String × Value)) : (object c hs).canonical =
        canonicalRecord c.name (hs.map fun f => (f.1, f.2.canonical)) := by
      rw [canonical, hsort, canonicalFields_eq_map]
    have hfields : fs.map (fun f => (f.1, f.2.canonical)) =
        gs.map fun f => (f.1, f.2.canonical) := by
      refine map_eq_map_iff.mpr (List.forall₂_iff_zip.mpr ⟨?_, fun {f g} hmem => ?_⟩)
      · simpa using congrArg List.length hnames
      · have hname : List.Forall₂ (fun f g : String × Value => f.1 = g.1) fs gs :=
          map_eq_map_iff.mp hnames
        exact Prod.ext ((List.forall₂_iff_zip.mp hname).2 hmem) (ih f g hmem)
    rw [htext, htext, hfields]

/-- Of two values with the same data both can be written or neither. -/
theorem SameData.isOverlongContent_eq (h : v.SameData w) :
    v.isOverlongContent = w.isOverlongContent := by
  induction h with
  | content h => exact h.isOverlongContent_eq
  | @record c _ fs gs hsort hnames _ ih =>
    have hlen : fs.length = gs.length := by simpa using congrArg List.length hnames
    have hfields (hs : List (String × Value)) :
        (object c hs).isOverlongContent = hs.any fun f => f.2.isOverlongContent := by
      rw [isOverlongContent, hsort, isOverlongContentField_eq]
    rw [hfields, hfields]
    exact any_congr_forall₂ (List.forall₂_iff_zip.mpr ⟨hlen, fun {f g} hmem => ih f g hmem⟩)

/-! ## Stand-ins that can be found -/

theorem IsScalar.isUnfreezable_eq (h : v.IsScalar) : v.isUnfreezable = false := by
  cases v <;> first | rfl | cases h

/-- Of equal plain data the stand-ins of both can be found or of neither. -/
theorem IsPlain.isUnfreezable_congr (hv : v.IsPlain) (hw : w.IsPlain) (h : v.eqv w = true) :
    v.isUnfreezable = w.isUnfreezable := by
  induction hv generalizing w with
  | scalar hs =>
    obtain ⟨a, ha, -⟩ := hs.exists_atom
    have hwa : w.atom? = some a := ((eqv_of_atom ha).mp h).2
    rw [hs.isUnfreezable_eq, (hw.of_atom hwa).isUnfreezable_eq]
  | list _ ih =>
    obtain ⟨ys, rfl, hys⟩ := eqv_list.mp h
    rw [isUnfreezable, isUnfreezable, isUnfreezableAny_eq, isUnfreezableAny_eq]
    exact any_congr_forall₂ (forall₂_of_mem hys fun x hx y hy => ih x hx (hw.of_list y hy))
  | tuple _ ih =>
    obtain ⟨ys, rfl, hys⟩ := eqv_tuple.mp h
    rw [isUnfreezable, isUnfreezable, isUnfreezableAny_eq, isUnfreezableAny_eq]
    exact any_congr_forall₂ (forall₂_of_mem hys fun x hx y hy => ih x hx (hw.of_tuple y hy))
  | @map es hk hval hd =>
    -- the stand-in of a map is found by writing all of it
    obtain ⟨fs, rfl, -⟩ := eqv_map.mp h
    exact (IsPlain.map hk hval hd).isOverlong_congr hw h

theorem unhashableField?_eq_none {fs : List (String × Value)} :
    unhashableField? fs = Option.none ↔ ∀ f ∈ fs, f.2.hashable = true := by
  induction fs with
  | nil => exact iff_of_true rfl fun _ hf => nomatch hf
  | cons f fs ih =>
    rw [unhashableField?, Option.or_eq_none_iff, ih, List.forall_mem_cons, hashable,
      Option.isNone_iff_eq_none]

theorem hashable_key {k r b : Value} : (key k r b).hashable = true ↔
    k.hashable = true ∧ r.hashable = true ∧ b.hashable = true := by
  simp only [hashable, unhashable?, Option.isNone_iff_eq_none, Option.or_eq_none_iff]

/-- The stand-in of a hashable value, which is the value itself, can be found. -/
theorem isUnfreezable_of_hashable (h : v.hashable = true) : v.isUnfreezable = false := by
  induction v using induct with
  | atom v a ha => cases v <;> first | rfl | cases ha
  | list => cases h
  | tuple xs ih =>
    refine Bool.eq_false_iff.mpr fun hu => ?_
    obtain ⟨x, hx, hu⟩ := isUnfreezableAny_iff.mp hu
    rw [ih x hx (hashable_tuple.mp h x hx)] at hu
    cases hu
  | members v xs hm => cases v <;> first | rfl | cases hm
  | map => cases h
  | object c fs ih =>
    unfold hashable unhashable? at h
    unfold isUnfreezable
    cases hsort : c.sort with
    | record frozen =>
      rw [hsort] at h
      cases frozen with
      | false => cases h
      | true =>
        have hfs := unhashableField?_eq_none.mp (Option.isNone_iff_eq_none.mp h)
        refine Bool.eq_false_iff.mpr fun hu => ?_
        obtain ⟨f, hf, hu⟩ := isUnfreezableField_iff.mp hu
        rw [ih f hf (hfs f hf)] at hu
        cases hu
    | labelled hashes =>
      rw [hsort] at h
      cases hashes with
      | false => cases h
      | true => rfl
  | key k r b hk hr hb =>
    obtain ⟨h₁, h₂, h₃⟩ := hashable_key.mp h
    rw [isUnfreezable, hk h₁, hr h₂, hb h₃]
    rfl
  | method => rfl

end Value

end RuleEngine
