import RuleEngine.Proofs.Binding.Within
import RuleEngine.Proofs.Value.Plain

/-!
# The laws of unifying

What unifying gives is the least binding that both sides are within, and it fails just if there is
no such binding. `IsLeast` says this of any result and any demand on bindings, and unifying two such
results makes both demands at once (`IsLeast.unify`). Results that are least for one demand agree
(`IsLeast.agree`). So unifying depends neither on the sides nor on the grouping, simply because a
conjunction does not.

* `unify_eq_none`: unifying fails exactly if some variable has unequal values.
* `unify_lawful`: when unifying fails, what it gives, and its laws.
-/

namespace RuleEngine.Binding

variable {a b c d : Binding} {k : Value}

/-! ## Least bindings -/

/-- The result is a binding that is within exactly those that meet the demand, or there is none
because no binding meets it. -/
inductive IsLeast (S : Binding → Prop) : Option Binding → Prop where
  | absent (unmet : ∀ u : Binding, u.Proper → ¬ S u) : IsLeast S none
  | found {d : Binding} (proper : d.Proper)
      (least : ∀ u : Binding, u.Proper → (Within d u ↔ S u)) : IsLeast S (some d)

/-- Both fail, or both give bindings that are equal as maps. -/
def Coincide : Option Binding → Option Binding → Prop :=
  Option.Rel fun d e => (Value.map d == Value.map e) = true

section IsLeast

variable {S T : Binding → Prop} {r r' : Option Binding}

theorem IsLeast.own (hb : b.Proper) : IsLeast (Within b) (some b) := .found hb fun _ _ => .rfl

theorem IsLeast.congr (h : IsLeast S r) (hST : ∀ u : Binding, u.Proper → (S u ↔ T u)) :
    IsLeast T r := by
  cases h with
  | absent unmet => exact .absent fun u hu => mt (hST u hu).mpr (unmet u hu)
  | found proper least => exact .found proper fun u hu => (least u hu).trans (hST u hu)

theorem IsLeast.agree (h : IsLeast S r) (h' : IsLeast S r') : Coincide r r' := by
  cases h with
  | absent unmet =>
    cases h' with
    | absent => exact .none
    | found proper least => exact absurd ((least _ proper).mp (.refl proper)) (unmet _ proper)
  | found proper least =>
    cases h' with
    | absent unmet => exact absurd ((least _ proper).mp (.refl proper)) (unmet _ proper)
    | found proper' least' =>
      refine .some ((eqv_iff_within proper proper').mpr ⟨?_, ?_⟩)
      · exact (least _ proper').mpr ((least' _ proper').mp (.refl proper'))
      · exact (least' _ proper).mpr ((least _ proper).mp (.refl proper))

theorem unify_isLeast (hb : b.Proper) (hc : c.Proper) :
    IsLeast (fun u => Within b u ∧ Within c u) (b.unify c) := by
  cases hd : b.unify c with
  | some d =>
    obtain ⟨hagree, rfl⟩ := (unify_eq_some hb hc).mp hd
    exact .found (hb.merge hc) fun u _ => merge_within_iff hb hc hagree
  | none =>
    refine .absent fun u hu hbounds => ?_
    have hagree := (agree_iff_within hb hc).mpr ⟨u, hu, hbounds⟩
    cases hd.symm.trans ((unify_eq_some hb hc).mpr ⟨hagree, rfl⟩)

theorem IsLeast.unify (h : IsLeast S r) (h' : IsLeast T r') :
    IsLeast (fun u => S u ∧ T u) (r.bind fun b => r'.bind fun c => b.unify c) := by
  cases h with
  | absent unmet => exact .absent fun u hu hST => unmet u hu hST.1
  | found hb least =>
    cases h' with
    | absent unmet => exact .absent fun u hu hST => unmet u hu hST.2
    | found hc least' =>
      exact (unify_isLeast hb hc).congr fun u hu => and_congr (least u hu) (least' u hu)

end IsLeast

/-! ## Variables -/

theorem Proper.lookup_of_mem (hb : b.Proper) {e : Value × Value} (he : e ∈ b)
    (hk : (e.1 == k) = true) : Assoc.lookup k b = some e.2 := by
  cases hl : Assoc.lookup k b with
  | none => exact absurd hk (Bool.eq_false_iff.mp (Assoc.lookup_eq_none.mp hl e he))
  | some v =>
    obtain ⟨f, hf, hfk, rfl⟩ := Assoc.mem_of_lookup hl
    rw [hb.eq_of_key he hf hk hfk]

/-- Both bindings bind the variable, to unequal values. -/
def Clash (b c : Binding) (k : Value) : Prop :=
  ∃ v w, Assoc.lookup k b = some v ∧ Assoc.lookup k c = some w ∧ (v == w) = false

theorem not_agree_iff (hb : b.Proper) (hc : c.Proper) : ¬ Agree b c ↔ ∃ k, Clash b c k := by
  constructor
  · intro h
    simp only [Agree, not_forall] at h
    obtain ⟨e, he, f, hf, hkey, hvalue⟩ := h
    have hown : (f.1 == f.1) = true := (hc.key_isSteady hf).refl
    exact ⟨f.1, e.2, f.2, hb.lookup_of_mem he hkey, hc.lookup_of_mem hf hown,
      Bool.eq_false_iff.mpr hvalue⟩
  · rintro ⟨k, v, w, hv, hw, hne⟩ hagree
    obtain ⟨e, he, hek, rfl⟩ := Assoc.mem_of_lookup hv
    obtain ⟨f, hf, hfk, rfl⟩ := Assoc.mem_of_lookup hw
    have hkey : (e.1 == f.1) = true := (hb.key_isSteady he).join (hc.key_isSteady hf) hek hfk
    exact Bool.eq_false_iff.mp hne (hagree e he f hf hkey)

/-- Unifying fails exactly if some variable has unequal values. -/
theorem unify_eq_none (hb : b.Proper) (hc : c.Proper) :
    b.unify c = none ↔ ∃ k, Clash b c k := by
  rw [← not_agree_iff hb hc, Option.eq_none_iff_forall_ne_some]
  constructor
  · exact fun h hagree => h _ ((unify_eq_some hb hc).mpr ⟨hagree, rfl⟩)
  · exact fun h d hd => h ((unify_eq_some hb hc).mp hd).1

/-- The third binding binds what the first two bind, and where both bind a variable it has the value
of the first one. -/
structure IsMerge (b c d : Binding) : Prop where
  proper : d.Proper
  bound : ∀ k, Assoc.contains k d = (Assoc.contains k b || Assoc.contains k c)
  left : ∀ k, Assoc.contains k b = true → Assoc.lookup k d = Assoc.lookup k b
  right : ∀ k, Assoc.contains k b = false → Assoc.lookup k d = Assoc.lookup k c

theorem isMerge_merge (hb : b.Proper) (hc : c.Proper) : IsMerge b c (merge b c) where
  proper := hb.merge hc
  bound k := by simp [← Assoc.lookup_isSome, lookup_merge hb]
  left k hk := by
    obtain ⟨v, hv⟩ := Option.isSome_iff_exists.mp (Assoc.lookup_isSome.trans hk)
    rw [lookup_merge hb, hv, Option.some_or]
  right k hk := by
    rw [lookup_merge hb, Assoc.lookup_eq_none.mpr (Assoc.contains_eq_false.mp hk), Option.none_or]

/-- Unifying bindings without not-a-number fails exactly if some variable has unequal values in
both. Otherwise it merges them, with the values of the first one where both have some. Up to
equality of maps it is commutative, associative and idempotent, and fails alike in either order and
grouping. -/
theorem unify_lawful (ha : a.Proper) (hb : b.Proper) (hc : c.Proper) :
    (a.unify b = none ↔ ∃ k, Clash a b k) ∧
    (∀ d, a.unify b = some d → IsMerge a b d) ∧
    Coincide (a.unify b) (b.unify a) ∧
    Coincide ((a.unify b).bind fun d => d.unify c) ((b.unify c).bind fun d => a.unify d) ∧
    Coincide (a.unify a) (some a) := by
  have hleast := (IsLeast.own ha).unify (.own hb)
  refine ⟨unify_eq_none ha hb, fun d hd => ?_, ?_, ?_, ?_⟩
  · obtain ⟨-, rfl⟩ := (unify_eq_some ha hb).mp hd
    exact isMerge_merge ha hb
  · exact (hleast.congr fun u _ => and_comm).agree ((IsLeast.own hb).unify (.own ha))
  · have hleft := hleast.unify (.own hc)
    have hright := (IsLeast.own ha).unify ((IsLeast.own hb).unify (.own hc))
    exact (hleft.congr fun u _ => and_assoc).agree hright
  · have htwice := (IsLeast.own ha).unify (.own ha)
    exact (htwice.congr fun u _ => and_self_iff).agree (.own ha)

def Sample.request : Binding := [(.text "guest", .int 1), (.text "rows", .list [.int 1, .int 2])]

/-- The same rows with a truth value for a number, and whether they are paid for. -/
def Sample.offer : Binding :=
  [(.text "rows", .list [.bool true, .int 2]), (.text "paid", .bool false)]

/-- The guest and the payment once more, with number and truth value the other way round. -/
def Sample.bill : Binding := [(.text "paid", .int 0), (.text "guest", .bool true)]

theorem Sample.pair_proper {m n : String} {v w : Value} (hne : m ≠ n) (hv : v.IsPlain)
    (hw : w.IsPlain) : Proper [(.text m, v), (.text n, w)] := by
  refine Value.IsPlain.proper (.map ?_ ?_ ?_)
  · simp
  · simp [hv, hw]
  · simp [hne]

/-- Three bindings that share variables in pairs, with equal values of different types. The side
that is first gives the values, and all of it coincides. -/
theorem unify_lawful_mixed :
    Sample.request.Proper ∧ Sample.offer.Proper ∧ Sample.bill.Proper ∧
    Sample.request.unify Sample.offer = some [(.text "guest", .int 1),
      (.text "rows", .list [.int 1, .int 2]), (.text "paid", .bool false)] ∧
    Sample.offer.unify Sample.request = some [(.text "rows", .list [.bool true, .int 2]),
      (.text "paid", .bool false), (.text "guest", .int 1)] ∧
    (¬ ∃ k, Clash Sample.request Sample.offer k) ∧
    Coincide (Sample.request.unify Sample.offer) (Sample.offer.unify Sample.request) ∧
    Coincide ((Sample.request.unify Sample.offer).bind fun d => d.unify Sample.bill)
      ((Sample.offer.unify Sample.bill).bind fun d => Sample.request.unify d) ∧
    Coincide (Sample.request.unify Sample.request) (some Sample.request) := by
  have hrows : ∀ v : Value, v.IsScalar → (Value.list [v, .int 2]).IsPlain := fun v hv =>
    .list (List.forall_mem_cons.mpr ⟨.scalar hv, List.forall_mem_singleton.mpr (.scalar trivial)⟩)
  have hrequest : Sample.request.Proper :=
    Sample.pair_proper (by decide) (.scalar trivial) (hrows (.int 1) trivial)
  have hoffer : Sample.offer.Proper :=
    Sample.pair_proper (by decide) (hrows (.bool true) trivial) (.scalar trivial)
  have hbill : Sample.bill.Proper :=
    Sample.pair_proper (by decide) (.scalar trivial) (.scalar trivial)
  have hunified : Sample.request.unify Sample.offer = some [(.text "guest", .int 1),
      (.text "rows", .list [.int 1, .int 2]), (.text "paid", .bool false)] := rfl
  obtain ⟨hfails, -, hcomm, hassoc, hidem⟩ := unify_lawful hrequest hoffer hbill
  refine ⟨hrequest, hoffer, hbill, hunified, rfl, fun hclash => ?_, hcomm, hassoc, hidem⟩
  cases hunified.symm.trans (hfails.mpr hclash)

end RuleEngine.Binding
