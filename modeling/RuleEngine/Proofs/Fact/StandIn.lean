import RuleEngine.Proofs.Agenda
import RuleEngine.Proofs.Fact.Alike

/-!
# Stand-ins as keys

Identities are keys of the memory and tokens are kept in sets, so both have to be hashable, and both
are made of stand-ins. Whether a value is hashable may depend on something deep inside it. Freezing
therefore goes through everything that keeps a value from being hashed; it can only stop where it
has to write a number that is too long, to put the entries of a map in order or to find a digest.

* `Resists`, `resists_iff`: the values that cannot be frozen.
* `frozen_eq_ok`, `standsFor_freeze`: all others have a stand-in, which is hashable, is the value
  itself if that is hashable, and is its own stand-in (`StandsFor`).
* `Fact.key_of_shown`, `Fact.key_hashable_or_given`: identities can be found and hashed.
* `frozen_usable`: all of this for values, facts and bindings.
-/

namespace RuleEngine

namespace Value

variable {v w : Value}

/-! ## Freezing -/

/-- The stand-in of a value, unless it cannot be found. -/
def frozen (v : Value) : Except Fault Value := do
  v.checkFreezable
  return v.freeze

/-- The value cannot be frozen: taking it apart leads to a map, or to an object known by its digest,
that holds a number too long to write. Sets are not taken apart, for their members are hashable. -/
inductive Resists : Value → Prop where
  | map {es : List (Value × Value)} (overlong : (map es).isOverlong = true) : Resists (.map es)
  | digest {c : ObjectClass} {fs : List (String × Value)} (sort : c.sort = .labelled false)
      (overlong : (object c fs).isOverlong = true) : Resists (.object c fs)
  | list {xs : List Value} {x : Value} (mem : x ∈ xs) (item : Resists x) : Resists (.list xs)
  | tuple {xs : List Value} {x : Value} (mem : x ∈ xs) (item : Resists x) : Resists (.tuple xs)
  | field {c : ObjectClass} {fs : List (String × Value)} {f : String × Value} {frozen : Bool}
      (sort : c.sort = .record frozen) (mem : f ∈ fs) (value : Resists f.2) :
      Resists (.object c fs)
  | part {k r b x : Value} (mem : x ∈ [k, r, b]) (value : Resists x) : Resists (.key k r b)

theorem Resists.isUnfreezable (h : v.Resists) : v.isUnfreezable = true := by
  induction h with
  | map ho => exact ho
  | digest hs ho =>
    rw [Value.isUnfreezable, hs]
    exact ho
  | list hx _ ih | tuple hx _ ih => exact isUnfreezableAny_iff.mpr ⟨_, hx, ih⟩
  | field hs hf _ ih =>
    rw [Value.isUnfreezable, hs]
    exact isUnfreezableField_iff.mpr ⟨_, hf, ih⟩
  | part hx _ ih =>
    simp only [List.mem_cons, List.not_mem_nil, or_false] at hx
    rcases hx with rfl | rfl | rfl <;> simp [Value.isUnfreezable, ih]

theorem resists_of_isUnfreezable (h : v.isUnfreezable = true) : v.Resists := by
  induction v using induct with
  | atom v a ha => cases v <;> first | cases h | cases ha
  | list xs ih =>
    obtain ⟨x, hx, hu⟩ := isUnfreezableAny_iff.mp h
    exact .list hx (ih x hx hu)
  | tuple xs ih =>
    obtain ⟨x, hx, hu⟩ := isUnfreezableAny_iff.mp h
    exact .tuple hx (ih x hx hu)
  | members v xs hm => cases v <;> first | cases h | cases hm
  | map es => exact .map h
  | object c fs ih =>
    rw [isUnfreezable] at h
    cases hs : c.sort with
    | record frozen =>
      simp only [hs, isUnfreezableField_iff] at h
      obtain ⟨f, hf, hu⟩ := h
      exact .field hs hf (ih f hf hu)
    | labelled hashable =>
      simp only [hs, Bool.and_eq_true, Bool.not_eq_true'] at h
      obtain ⟨rfl, ho⟩ := h
      exact .digest hs ho
  | key k r b ihk ihr ihb =>
    simp only [isUnfreezable, Bool.or_eq_true] at h
    rcases h with (h | h) | h
    · exact .part (by simp) (ihk h)
    · exact .part (by simp) (ihr h)
    · exact .part (by simp) (ihb h)
  | method => cases h

/-- The check before freezing stops exactly the values that resist. -/
theorem resists_iff : v.Resists ↔ v.isUnfreezable = true :=
  ⟨Resists.isUnfreezable, resists_of_isUnfreezable⟩

theorem Resists.hashable_eq_false (h : v.Resists) : v.hashable = false := by
  refine Bool.eq_false_iff.mpr fun hh => ?_
  have hu := h.isUnfreezable
  rw [isUnfreezable_of_hashable hh] at hu
  cases hu

theorem Resists.isOverlong (h : v.Resists) : v.isOverlong = true :=
  isOverlong_of_isUnfreezable h.isUnfreezable

theorem frozen_eq_ok : v.frozen = .ok w ↔ ¬ v.Resists ∧ v.freeze = w := by
  rw [frozen, bind_eq_ok, resists_iff, Bool.not_eq_true, ← checkFreezable_eq_ok]
  exact ⟨fun ⟨(), hcheck, hw⟩ => ⟨hcheck, pure_eq_ok.mp hw⟩,
    fun ⟨hcheck, hw⟩ => ⟨(), hcheck, pure_eq_ok.mpr hw⟩⟩

theorem Resists.frozen_eq_error (h : v.Resists) : v.frozen = .error .unwritableInteger := by
  rw [frozen, checkFreezable, h.isUnfreezable]
  rfl

/-- The first value can stand for the second where keys are asked for: it is hashable, it is that
value if that is hashable itself, and it stands for itself. It equals itself, unless the second
value has a not-a-number somewhere. -/
structure StandsFor (w v : Value) : Prop where
  hashable : w.hashable = true
  eq_of_hashable : v.hashable = true → w = v
  frozen_self : w.frozen = .ok w
  beq_self : v.Proper → v.WellFormed → (w == w) = true

theorem frozen_of_hashable (h : v.hashable = true) : v.frozen = .ok v := by
  refine frozen_eq_ok.mpr ⟨fun hr => ?_, freeze_of_hashable h⟩
  exact Bool.false_ne_true (hr.hashable_eq_false.symm.trans h)

theorem standsFor_freeze (v : Value) : v.freeze.StandsFor v where
  hashable := freeze_hashable v
  eq_of_hashable := freeze_of_hashable
  frozen_self := frozen_of_hashable (freeze_hashable v)
  beq_self hp hw := (hp.freeze hw).refl

/-! ## Ids of values that can be shown -/

theorem isOverlong_of_entry? {n : String} (h : v.entry? n = some w) (ho : v.isOverlong = false) :
    w.isOverlong = false := by
  cases v with
  | map es =>
    obtain ⟨e, he, -, rfl⟩ := Assoc.mem_of_lookup h
    exact (isOverlongEntry_eq_false.mp ho e he).2
  | _ => cases h

/-- What a value that can be shown has as its id has a stand-in. It need not be shown itself: that
of an enumeration member is another member. -/
theorem checkFreezable_of_content? (h : v.content? "id" = some w) (ho : v.isOverlong = false) :
    w.checkFreezable = .ok () := by
  cases v with
  | object c fs =>
    obtain ⟨as, bs, hfs, -⟩ := List.lookup_eq_some_iff.mp h
    refine checkFreezable_of_shown (Bool.eq_false_iff.mpr fun hw => ?_)
    have hfield : isOverlongField fs = true :=
      isOverlongField_iff.mpr ⟨("id", w), by simp [hfs], hw⟩
    exact Bool.false_ne_true (ho.symm.trans hfield)
  | member m =>
    obtain ⟨m', rfl⟩ := member_of_enumerationPart (memberPart_id h)
    rfl
  | cls c =>
    obtain ⟨m, rfl⟩ := member_of_enumerationPart (classPart_id h)
    rfl
  | key k r b => cases h
  | method o n => cases h
  | _ => simp [content?, integerPart, numberPart] at h

end Value

/-! ## Identities and tokens -/

/-- The identity of a kind and an id is made of the stand-in of the id. -/
theorem FactKey.ofId_eq (kind id : Value) :
    FactKey.ofId kind id = id.frozen.map fun w => ⟨kind, w, .bool false⟩ := by
  unfold FactKey.ofId Value.frozen
  cases id.checkFreezable <;> rfl

namespace Fact

variable {f i : Value} {k : FactKey}

theorem id_freezable (h : id f = .ok i) (ho : f.isOverlong = false) :
    i.checkFreezable = .ok () := by
  by_cases hmap : ∃ es, f = .map es
  · obtain ⟨es, rfl⟩ := hmap
    cases h
    cases hentry : Value.entry? (.map es) "id" with
    | none => rfl
    | some v => exact Value.checkFreezable_of_shown (Value.isOverlong_of_entry? hentry ho)
  · rw [id_of_ok (not_exists.mp hmap) h]
    cases hcont : f.content? "id" with
    | none => rfl
    | some v =>
      change (if v.isCallable then Value.none else v).checkFreezable = .ok ()
      split
      · rfl
      · exact Value.checkFreezable_of_content? hcont ho

/-- A fact that can be shown and whose id can be read has an identity. -/
theorem key_of_shown (h : id f = .ok i) (ho : f.isOverlong = false) : ∃ k, key f = .ok k := by
  by_cases hkey : ∃ k r b, f = .key k r b
  · obtain ⟨_, _, _, rfl⟩ := hkey
    exact ⟨_, rfl⟩
  · have hkind : ((statedKind? f).getD .none).checkText = .ok () := by
      cases hs : statedKind? f with
      | none => rfl
      | some v =>
        have hentry := (statedKind?_eq_some.mp hs).1
        exact Value.checkText_of_shown (Value.isOverlong_of_entry? hentry ho)
    refine ⟨made f i, (key_eq_ok fun k r b hf => hkey ⟨k, r, b, hf⟩).mpr ⟨hkind, i, h, rfl, ?_⟩⟩
    by_cases hi : i = .none
    · exact .inl ⟨hi, Value.checkContent_of_shown ho⟩
    · exact .inr ⟨hi, id_freezable h ho⟩

/-- An identity that was made of a fact is hashable; one that was given as the fact is as hashable
as it was. -/
theorem key_hashable_or_given (h : key f = .ok k) :
    k.checkHashable = .ok () ∨ f = k.value ∧ f.hashable = false := by
  cases hh : f.hashable with
  | true => exact .inl (key_hashable h fun _ _ _ _ => hh)
  | false =>
    by_cases hkey : ∃ k r b, f = .key k r b
    · obtain ⟨_, _, _, rfl⟩ := hkey
      cases h
      exact .inr ⟨rfl, rfl⟩
    · exact .inl (key_hashable h fun k r b hf => absurd ⟨k, r, b, hf⟩ hkey)

end Fact

theorem Name.value_hashable (n : Name) : n.value.hashable = true := by
  unfold Name.value
  cases n.member <;> rfl

theorem Token.of_eq (rule : Name) (b : Binding) :
    Token.of rule b = (Value.map b).frozen.map fun w => ⟨rule, w⟩ := by
  unfold Token.of Value.frozen
  cases (Value.map b).checkFreezable <;> rfl

/-- A token can be hashed: its hash is that of the pair of the name and the frozen binding. -/
theorem Token.of_hashable {rule : Name} {b : Binding} {t : Token} (h : Token.of rule b = .ok t) :
    (Value.tuple [t.rule.value, t.binding]).hashable = true := by
  obtain ⟨-, rfl⟩ := Token.of_eq_ok.mp h
  exact Value.hashable_pair.mpr ⟨rule.value_hashable, Value.freeze_hashable _⟩

namespace Value

/-- Freezing gives a stand-in for every value that does not resist it: a hashable one, which is the
value itself if that is hashable, and which is its own stand-in. What resists is not hashable, holds
a number too long to write, and freezing it fails on that.

So identities and tokens can be kept as keys. A fact that can be shown and whose id can be read has
an identity, and an identity that was made of a fact can be hashed; only an identity that was given
in place of a fact may be one that cannot. A token is made of the stand-in of its binding, so a
binding has one if it can be shown, and every token can be hashed. -/
theorem frozen_usable (v fact : Value) (rule : Name) (b : Binding) :
    (¬ v.Resists → ∃ w, v.frozen = .ok w ∧ w.StandsFor v) ∧
    (v.Resists → v.hashable = false ∧ v.isOverlong = true ∧
      v.frozen = .error .unwritableInteger) ∧
    (∀ i, Fact.id fact = .ok i → fact.isOverlong = false → ∃ k, Fact.key fact = .ok k) ∧
    (∀ k, Fact.key fact = .ok k →
      k.checkHashable = .ok () ∨ fact = k.value ∧ fact.hashable = false) ∧
    Token.of rule b = ((Value.map b).frozen.map fun w => ⟨rule, w⟩) ∧
    ((∃ t, Token.of rule b = .ok t) ↔ (Value.map b).isOverlong = false) ∧
    ∀ t, Token.of rule b = .ok t → (tuple [t.rule.value, t.binding]).hashable = true := by
  refine ⟨fun hv => ?_, fun hv => ?_, ?_, ?_, Token.of_eq rule b, ?_, ?_⟩
  · exact ⟨v.freeze, frozen_eq_ok.mpr ⟨hv, rfl⟩, standsFor_freeze v⟩
  · exact ⟨hv.hashable_eq_false, hv.isOverlong, hv.frozen_eq_error⟩
  · exact fun i hi ho => Fact.key_of_shown hi ho
  · exact fun k hk => Fact.key_hashable_or_given hk
  · simp only [Token.of_eq_ok, exists_and_left, exists_eq, and_true]
  · exact fun t => Token.of_hashable

/-- A class of records that can be changed, and so cannot be hashed. -/
def Sample.memo (text : Value) : Value :=
  .object ⟨"Memo", "host", ["object"], .record false, [], []⟩ [("text", text)]

/-- A list of a set, octets that can be changed, and a map with a record in it. -/
def Sample.file : Value :=
  .list [.set [.text "new"], .buffer [7], .map [(.text "memos", .list [memo (.list [.int 1])])]]

def Sample.filed (id : Value) : Value := .map [(.text "kind", .text "file"), (.text "id", id)]

theorem frozen_usable_file :
    Sample.file.hashable = false ∧ ¬ Sample.file.Resists ∧
    (∃ w, Sample.file.frozen = .ok w ∧ w.StandsFor Sample.file ∧
      w = .tuple [.frozenSet [.text "new"], frozenDigest (.buffer [7]),
        .tuple [.text "__map__", .tuple [.tuple [.text "memos", .tuple [
          .tuple [.text "Memo", .tuple [.tuple [.text "text", .tuple [.int 1]]]]]]]]]) ∧
    (∃ k, Fact.key (Sample.filed Sample.file) = .ok k ∧ k.checkHashable = .ok ()) ∧
    ∃ t, Token.of (.ofText "watch") [(.text "x", Sample.file)] = .ok t ∧
      (tuple [t.rule.value, t.binding]).hashable = true := by
  have hfree : ¬ Sample.file.Resists := by
    rw [resists_iff]
    decide +kernel
  obtain ⟨hfrozen, -, hfound, hkeys, -, htoken, hhashed⟩ := frozen_usable Sample.file
    (Sample.filed Sample.file) (.ofText "watch") [(.text "x", Sample.file)]
  obtain ⟨w, hw, hstands⟩ := hfrozen hfree
  obtain ⟨k, hk⟩ := hfound Sample.file rfl (by decide +kernel)
  obtain ⟨t, ht⟩ := htoken.mpr (by decide +kernel)
  refine ⟨rfl, hfree, ⟨w, hw, hstands, ?_⟩, ⟨k, hk, ?_⟩, t, ht, hhashed t ht⟩
  · exact (frozen_eq_ok.mp hw).2.symm
  · rcases hkeys k hk with hk' | ⟨hk', -⟩
    · exact hk'
    · cases hk'

def Sample.long : Value := .map [(.text "n", .int writtenBound)]

theorem Sample.key_filed (es : List (Value × Value)) :
    Fact.key (filed (.map es)) = FactKey.ofId (.text "file") (.map es) := rfl

/-- The map with that number has no stand-in, so a fact with this id has no identity. -/
theorem frozen_overlong : Sample.long.frozen = .error .unwritableInteger ∧
    Fact.key (Sample.filed Sample.long) = .error .unwritableInteger := by
  have hentry : isOverlongEntry [(.text "n", .int writtenBound)] = true :=
    isOverlongEntry_iff.mpr ⟨_, List.mem_singleton_self _, .inr isOverlongInteger_writtenBound⟩
  have hlong : Sample.long.frozen = .error .unwritableInteger :=
    (Resists.map hentry).frozen_eq_error
  refine ⟨hlong, ?_⟩
  rw [Sample.long, Sample.key_filed, ← Sample.long, FactKey.ofId_eq, hlong]
  rfl

end Value

end RuleEngine
