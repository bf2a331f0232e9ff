import RuleEngine.Pattern.Term
import RuleEngine.Proofs.Assoc
import RuleEngine.Proofs.Double.Magnitude
import RuleEngine.Proofs.Traced
import RuleEngine.Proofs.Value.WellFormed

/-!
# Values that can be read throughout

Matching a term reads fields of a value, fields of those fields, and so on. A value is legible if no
such reading fails or comes to a double that is not a number, whatever the names of the fields are.

What can be read is more than what a value is made of: a method belongs to its owner, every value
has a class, and an enumeration has tables of its members. `Regular` says of the parts of a value
what makes it legible: no double is not a number, no object has a faulty attribute, and what should
differ does, such as the members of a set and the names of the members of an enumeration. It goes on
to hold of whatever is read (`Regular.field`).

* `Regular.legible`: regular values are legible.
-/

namespace RuleEngine

/-- Neither two names nor two contents of members are the same. -/
structure Enumeration.Distinct (e : Enumeration) : Prop where
  names : (e.cases.map (·.1)).Nodup
  contents : e.members.Pairwise fun m m' =>
    (Value.memberContent m).eqv (Value.memberContent m') = false

namespace Value

variable {u v w : Value} {name : String}

/-- What reading fields of a value, and of what they hold, comes to. -/
inductive Reaches (v : Value) : Value → Prop where
  | self : Reaches v v
  | field {w u k : Value} (path : Reaches v w) (read : Term.field w k = .ok (some u)) : Reaches v u

/-- Reading fields never fails, and never comes to a double that is not a number. -/
structure Legible (v : Value) : Prop where
  proper : ∀ {w : Value}, Reaches v w → w.Proper
  reads : ∀ {w : Value}, Reaches v w → ∀ k, ∃ o, Term.field w k = .ok o

theorem Reaches.trans (h : Reaches u v) (k : Reaches v w) : Reaches u w := by
  induction k with
  | self => exact h
  | field _ read ih => exact .field ih read

theorem Legible.field {k : Value} (hv : v.Legible) (h : Term.field v k = .ok (some w)) :
    w.Legible where
  proper hw := hv.proper (.trans (.field .self h) hw)
  reads hw := hv.reads (.trans (.field .self h) hw)

def enumeration? : Value → Option Enumeration
  | .member m => some m.enumeration
  | .var n => n.member.map (·.enumeration)
  | .cls c => some c.enumeration
  | _ => Option.none

/-- A value without not-a-number and without faulty attributes in which what should differ does. -/
inductive Regular : Value → Prop where
  | atom {v : Value} {a : Atom} (atom : v.atom? = some a) (ne : a ≠ .number .nan)
      (tables : ∀ e, v.enumeration? = some e → e.Distinct) : Regular v
  | list {xs : List Value} (items : ∀ x ∈ xs, Regular x) : Regular (.list xs)
  | tuple {xs : List Value} (items : ∀ x ∈ xs, Regular x) : Regular (.tuple xs)
  | members {v : Value} {xs : List Value} (members : v.members? = some xs)
      (items : ∀ x ∈ xs, Regular x) (distinct : xs.Pairwise fun x y => eqv x y = false) : Regular v
  | map {es : List (Value × Value)} (keys : ∀ e ∈ es, Regular e.1) (values : ∀ e ∈ es, Regular e.2)
      (distinct : es.Pairwise fun e f => eqv e.1 f.1 = false) : Regular (.map es)
  | object {c : ObjectClass} {fs : List (String × Value)} (fields : ∀ f ∈ fs, Regular f.2)
      (names : (fs.map (·.1)).Nodup) (readable : c.faulty = []) : Regular (.object c fs)
  | key {k r b : Value} (kind : Regular k) (ref : Regular r) (byContent : Regular b) :
      Regular (.key k r b)
  | method {o : Value} {n : String} (owner : Regular o) : Regular (.method o n)

theorem Regular.proper (h : v.Regular) : v.Proper := by
  induction h with
  | atom ha hne => exact .atom ha hne
  | list _ ih => exact .list ih
  | tuple _ ih => exact .tuple ih
  | members hm _ hd ih => exact .members hm ih hd
  | map _ _ hd ihk ihv => exact .map ihk ihv hd
  | object _ _ _ ih => exact .object ih
  | key _ _ _ ihk ihr ihb => exact .key ihk ihr ihb
  | method _ ih => exact .method ih

/-! ## Simple values -/

theorem regular_none : none.Regular := .atom rfl (by simp) nofun

theorem regular_bool (b : Bool) : (bool b).Regular := .atom rfl (by simp) nofun

theorem regular_int (n : Int) : (int n).Regular := .atom rfl (by simp) nofun

theorem regular_float (negative : Bool) (n : Nat) :
    (float (Double.ofOrdinal negative n)).Regular := by
  have hne : (Double.ofOrdinal negative n).number ≠ .nan := by
    unfold Double.ofOrdinal
    split
    · exact Number.ofUnits_ne_nan _
    · nofun
  exact .atom rfl (fun h => hne (Atom.number.inj h)) nofun

theorem regular_text (s : String) : (text s).Regular := .atom rfl (by simp) nofun

theorem regular_member {m : Member} (h : m.enumeration.Distinct) : (member m).Regular := by
  obtain ⟨e, n, p⟩ := m
  cases p <;> exact .atom rfl (by simp) (by simpa [enumeration?] using h)

theorem regular_name {n : Name} (h : ∀ e, (var n).enumeration? = some e → e.Distinct) :
    n.value.Regular := by
  unfold Name.value
  cases hm : n.member with
  | none => exact regular_text n.text
  | some m => exact regular_member (h _ (by simp [enumeration?, hm]))

theorem regular_content (m : Member) : (memberContent m).Regular := by
  unfold memberContent
  split
  · exact regular_int _
  · exact regular_int _
  · exact regular_text _

theorem regular_class {c : ClassInfo} (h : c.enumeration.Distinct) : (cls c).Regular :=
  .atom rfl (by simp) (by simpa [enumeration?] using h)

/-- A class that is no enumeration has no members that could be the same. -/
theorem regular_plainClass {c : ClassInfo} (h : c.cases = []) : (cls c).Regular := by
  refine regular_class ⟨?_, ?_⟩ <;> simp [ClassInfo.enumeration, Enumeration.members, h]

theorem regular_texts {α : Type} (f : α → String) (xs : List α) :
    (tuple (xs.map fun x => text (f x))).Regular :=
  .tuple (List.forall_mem_map.mpr fun _ _ => regular_text _)

theorem regular_named {α : Type} {f : α → String} {g : α → Value} {xs : List α}
    (hd : (xs.map f).Nodup) (hg : ∀ x ∈ xs, (g x).Regular) :
    (map (xs.map fun x => (text (f x), g x))).Regular := by
  refine .map (List.forall_mem_map.mpr fun _ _ => regular_text _) (List.forall_mem_map.mpr hg) ?_
  refine List.pairwise_map.mpr ((List.pairwise_map.mp hd).imp fun hne => ?_)
  simpa [Bool.eq_false_iff, eqv_of_atom (v := text _) rfl, atom?] using Ne.symm hne

/-! ## Classes and enumerations -/

theorem ownClass_regular (h : v.Regular) : v.ownClass.Regular := by
  cases v with
  | member m =>
    cases h with
    | atom _ _ tables => exact regular_class (tables _ rfl)
    | members hm => cases hm
  | _ => exact regular_plainClass rfl

theorem lineage_regular {home : Option String} {as : List String} :
    ∀ c ∈ lineage home as, (cls c).Regular := by
  induction as generalizing home with
  | nil => exact fun _ h => nomatch h
  | cons a as ih => exact List.forall_mem_cons.mpr ⟨regular_plainClass rfl, ih⟩

theorem bases_regular {c : ClassInfo} : ∀ d ∈ bases c, (cls d).Regular := by
  intro d hd
  unfold bases at hd
  split at hd <;> exact lineage_regular d (List.mem_of_mem_take hd)

theorem enumerationPart_regular {e : Enumeration} (he : e.Distinct)
    (h : enumerationPart e name = some w) : w.Regular := by
  have hmember : ∀ m ∈ e.members, (member m).Regular := by
    refine List.forall_mem_map.mpr fun c _ => regular_member he
  have hnames : (e.members.map (·.name)).Nodup := by
    simpa [Enumeration.members, Function.comp_def] using he.names
  unfold enumerationPart at h
  split at h
  · rename_i m hm
    cases h
    obtain ⟨p, -, rfl⟩ := Option.map_eq_some_iff.mp hm
    exact regular_member he
  · cases h
    exact .list (List.forall_mem_map.mpr fun _ _ => regular_text _)
  · cases h
    exact regular_named hnames hmember
  · cases h
    exact .map (List.forall_mem_map.mpr fun m _ => regular_content m)
      (List.forall_mem_map.mpr hmember) (List.pairwise_map.mpr he.contents)
  · split at h <;> cases h
    exact regular_none
  · cases h
    exact .list fun _ hx => nomatch hx
  · cases h
    exact regular_bool _
  · cases h
    exact regular_plainClass rfl
  · cases h

theorem emptyMap_regular : (map []).Regular := .map nofun nofun .nil

theorem enumerationClassPart_regular {e : Enumeration} (he : e.Distinct)
    (h : enumerationClassPart e name = some w) : w.Regular := by
  unfold enumerationClassPart at h
  split at h
  · exact enumerationPart_regular he h
  · cases h
    exact emptyMap_regular
  · cases h
    exact regular_none
  · exact enumerationPart_regular he h

theorem plainClassPart_regular {c : ClassInfo} (h : plainClassPart c name = some w) :
    w.Regular := by
  unfold plainClassPart at h
  split at h
  · cases h
    exact regular_text _
  · split at h <;> cases h
    exact regular_texts id _
  · split at h <;> cases h
    exact emptyMap_regular
  · split at h <;> cases h
    exact regular_none
  · cases h

theorem classPart_regular {c : ClassInfo} (hc : c.enumeration.Distinct)
    (h : classPart c name = some w) : w.Regular := by
  unfold classPart at h
  split at h
  · cases h
    exact regular_text _
  · cases h
    exact regular_text _
  · cases h
    refine .tuple (List.forall_mem_cons.mpr ⟨regular_class hc, ?_⟩)
    exact List.forall_mem_map.mpr lineage_regular
  · cases h
    exact .tuple (List.forall_mem_map.mpr bases_regular)
  · cases h
    cases hb : (bases c).head? with
    | none => exact regular_none
    | some d => exact bases_regular d (List.mem_of_head? hb)
  · split at h
    · exact enumerationClassPart_regular hc h
    · exact plainClassPart_regular h

/-! ## Reading -/

theorem numberPart_regular {zero : Value} (hv : v.Regular) (hz : zero.Regular)
    (h : numberPart v zero name = some w) : w.Regular := by
  unfold numberPart at h
  split at h
  · cases h
    exact hv
  · split at h <;> cases h
    exact hz

theorem integerPart_regular {n : Int} (h : integerPart n name = some w) : w.Regular := by
  unfold integerPart at h
  split at h
  · cases h
    exact regular_int n
  · split at h
    · cases h
      exact regular_int 1
    · exact numberPart_regular (regular_int n) (regular_int 0) h

theorem memberPart_regular {m : Member} (hm : m.enumeration.Distinct)
    (h : memberPart m name = some w) : w.Regular := by
  unfold memberPart at h
  split at h
  · cases h
    exact regular_text _
  split at h
  · cases h
    exact regular_content m
  split at h
  · cases h
    exact ownClass_regular (regular_member hm)
  split at h
  · cases h
    exact regular_int _
  rcases Option.or_eq_some_iff.mp h with h | ⟨-, h⟩
  · exact enumerationPart_regular hm h
  · split at h
    · exact integerPart_regular h
    · cases h

theorem lookup_regular {fs : List (String × Value)} (hfs : ∀ f ∈ fs, f.2.Regular)
    (h : fs.lookup name = some w) : w.Regular := by
  obtain ⟨as, bs, rfl, -⟩ := List.lookup_eq_some_iff.mp h
  exact hfs (name, w) (by simp)

theorem Regular.content (hv : v.Regular) (h : v.content? name = some w) : w.Regular := by
  cases hv with
  | @atom _ a ha hne htables =>
    cases v with
    | bool | int => exact integerPart_regular h
    | float => exact numberPart_regular (.atom ha hne htables) (regular_float false 0) h
    | member m => exact memberPart_regular (htables _ rfl) h
    | cls c => exact classPart_regular (htables _ rfl) h
    | var n =>
      obtain ⟨-, h⟩ := Option.ite_none_right_eq_some.mp h
      cases h
      exact regular_name htables
    | list | tuple | set | frozenSet | map | object | key | method => cases ha
    | _ => cases h
  | object hfs => exact lookup_regular hfs h
  | key hk hr hb => exact lookup_regular (by simp [hk, hr, hb]) h
  | method ho => exact lookup_regular (by simp [ho, regular_text]) h
  | @members _ xs hm =>
    cases v with
    | set | frozenSet => cases h
    | _ => cases hm
  | list | tuple | map => cases h

/-- What a value keeps by name, as a map and as a tuple of the names. -/
theorem fields_regular (fs : List (String × Value)) (hd : (fs.map (·.1)).Nodup)
    (hfs : ∀ f ∈ fs, f.2.Regular) :
    (map (fs.map fun f => (text f.1, f.2))).Regular ∧
      (tuple ((fs.map fun f => (text f.1, f.2)).map (·.1))).Regular := by
  refine ⟨regular_named hd hfs, ?_⟩
  rw [List.map_map]
  exact regular_texts (·.1) fs

theorem Regular.state {es : List (Value × Value)} (hv : v.Regular) (h : v.state? = some es) :
    (Value.map es).Regular ∧ (Value.tuple (es.map (·.1))).Regular := by
  cases hv with
  | @atom _ a ha hne htables =>
    cases v with
    | member m =>
      cases h
      have hm : m.enumeration.Distinct := htables _ rfl
      refine fields_regular [("_value_", memberContent m), ("_name_", text m.name),
        ("__objclass__", ownClass (member m)),
        ("_sort_order_", int (m.enumeration.members.idxOf m))] (by simp) ?_
      simp [regular_content, regular_text, regular_int, ownClass_regular (regular_member hm)]
    | var n =>
      cases h
      exact fields_regular [("name", n.value)] (by simp) (by simp [regular_name htables])
    | any =>
      cases h
      exact fields_regular [] .nil nofun
    | list | tuple | set | frozenSet | map | object | key | method => cases ha
    | _ => cases h
  | object hfs hnames =>
    cases h
    exact fields_regular _ hnames hfs
  | @key k r b hk hr hb =>
    cases h
    exact fields_regular [("kind", k), ("ref", r), ("by_content", b)] (by simp)
      (by simp [hk, hr, hb])
  | @members _ xs hm =>
    cases v with
    | set | frozenSet => cases h
    | _ => cases hm
  | list | tuple | map | method => cases h

theorem Regular.description (hv : v.Regular) (h : v.description? name = some w) : w.Regular := by
  unfold description? at h
  split at h
  · cases h
    exact ownClass_regular hv
  · cases h
    exact (hv.state ‹_›).1
  · cases h
    exact regular_none
  · cases h
    exact (hv.state ‹_›).2
  · split at h <;> cases h
    exact regular_none
  · split at h <;> cases h
    exact regular_text _
  · split at h <;> cases h
    exact regular_none
  · cases h

theorem Regular.attribute (hv : v.Regular) (h : v.attribute? name = some w) : w.Regular := by
  unfold attribute? at h
  rcases Option.or_eq_some_iff.mp h with h | ⟨-, h⟩
  · exact hv.content h
  · obtain ⟨-, h⟩ := Option.ite_none_right_eq_some.mp h
    cases h
    cases hd : v.description? name with
    | none => exact .method hv
    | some u => exact hv.description hd

theorem Regular.attributeOf (hv : v.Regular) (name : String) :
    v.attributeOf name = .ok (v.attribute? name) := by
  cases hv with
  | object _ _ hreadable => simp [Value.attributeOf, hreadable]
  | @atom _ a ha => cases v <;> first | rfl | cases ha
  | @members _ xs hm => cases v <;> first | rfl | cases hm
  | _ => rfl

/-- Every field of a regular value can be read, and what is read is regular. -/
theorem Regular.field (hv : v.Regular) (k : Value) :
    ∃ o, Term.field v k = .ok o ∧ ∀ w ∈ o, w.Regular := by
  cases v with
  | map es =>
    refine ⟨_, rfl, fun w hw => ?_⟩
    obtain ⟨e, he, -, rfl⟩ := Assoc.mem_of_lookup hw
    cases hv with
    | map _ hvalues => exact hvalues e he
    | atom ha => cases ha
    | members hm => cases hm
  | _ => exact ⟨_, hv.attributeOf _, fun w hw => hv.attribute hw⟩

theorem Regular.reaches (hv : v.Regular) (h : Reaches v w) : w.Regular := by
  induction h with
  | self => exact hv
  | @field w u k _ read ih =>
    obtain ⟨o, ho, hregular⟩ := ih.field k
    exact hregular u (Except.ok.inj (ho.symm.trans read) ▸ rfl)

theorem Regular.legible (hv : v.Regular) : v.Legible where
  proper hw := (hv.reaches hw).proper
  reads hw k := by
    obtain ⟨o, ho, -⟩ := (hv.reaches hw).field k
    exact ⟨o, ho⟩

end Value

end RuleEngine
