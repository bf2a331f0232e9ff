import RuleEngine.Proofs.Value.WellFormed

/-!
# Structured values

A structured value has its whole content in its parts: it is made of scalars, octets, enumeration
members, sequences, sets, maps, records and fact keys, without octets that can be changed and
without objects that are only known by what they show. Nowhere in it is a double that is not a
number. Structured values are proper, so their equality is an equivalence.
-/

namespace RuleEngine.Value

variable {v : Value} {xs : List Value} {es : List (Value × Value)} {fs : List (String × Value)}

/-- A value with its whole content in its parts. -/
inductive IsStructured : Value → Prop where
  | atom {v : Value} {a : Atom} (atom : v.atom? = some a) (ne : a ≠ .number .nan)
      (hashable : v.hashable = true) (name : ∀ n, v = .var n → n.WellFormed) : IsStructured v
  | list {xs : List Value} (items : ∀ x ∈ xs, IsStructured x) : IsStructured (.list xs)
  | tuple {xs : List Value} (items : ∀ x ∈ xs, IsStructured x) : IsStructured (.tuple xs)
  | members {v : Value} {xs : List Value} (members : v.members? = some xs)
      (items : ∀ x ∈ xs, IsStructured x) (hashable : ∀ x ∈ xs, x.hashable = true)
      (distinct : xs.Pairwise fun x y => eqv x y = false) : IsStructured v
  | map {es : List (Value × Value)} (keys : ∀ e ∈ es, IsStructured e.1)
      (values : ∀ e ∈ es, IsStructured e.2) (hashable : ∀ e ∈ es, e.1.hashable = true)
      (distinct : es.Pairwise fun e f => eqv e.1 f.1 = false) : IsStructured (.map es)
  | record {c : ObjectClass} {fs : List (String × Value)} {frozen : Bool}
      (sort : c.sort = .record frozen) (fields : ∀ f ∈ fs, IsStructured f.2) :
      IsStructured (.object c fs)
  | key {k r b : Value} (kind : IsStructured k) (ref : IsStructured r)
      (byContent : IsStructured b) : IsStructured (.key k r b)

theorem IsStructured.proper (h : v.IsStructured) : v.Proper := by
  induction h with
  | atom ha hn => exact .atom ha hn
  | list _ ih => exact .list ih
  | tuple _ ih => exact .tuple ih
  | members hm _ _ hd ih => exact .members hm ih hd
  | map _ _ _ hd ihk ihv => exact .map ihk ihv hd
  | record _ _ ih => exact .object ih
  | key _ _ _ ihk ihr ihb => exact .key ihk ihr ihb

/-! ## Parts of structured values -/

theorem IsStructured.of_list (h : (Value.list xs).IsStructured) : ∀ x ∈ xs, x.IsStructured := by
  cases h with
  | atom ha => cases ha
  | members hm => cases hm
  | list hxs => exact hxs

theorem IsStructured.of_tuple (h : (Value.tuple xs).IsStructured) : ∀ x ∈ xs, x.IsStructured := by
  cases h with
  | atom ha => cases ha
  | members hm => cases hm
  | tuple hxs => exact hxs

theorem IsStructured.of_members (hm : v.members? = some xs) (h : v.IsStructured) :
    ∀ x ∈ xs, x.IsStructured ∧ x.hashable = true := by
  cases h with
  | members hm' hxs hh =>
    obtain rfl := Option.some.inj (hm.symm.trans hm')
    exact fun x hx => ⟨hxs x hx, hh x hx⟩
  | atom ha =>
    cases v with
    | set | frozenSet => cases ha
    | _ => cases hm
  | _ => cases hm

theorem IsStructured.of_map (h : (Value.map es).IsStructured) :
    (∀ e ∈ es, e.1.IsStructured) ∧ (∀ e ∈ es, e.2.IsStructured) ∧
      (∀ e ∈ es, e.1.hashable = true) ∧ es.Pairwise fun e f => eqv e.1 f.1 = false := by
  cases h with
  | atom ha => cases ha
  | members hm => cases hm
  | map hk hv hh hd => exact ⟨hk, hv, hh, hd⟩

theorem IsStructured.of_object {c : ObjectClass} (h : (Value.object c fs).IsStructured) :
    (∃ frozen, c.sort = .record frozen) ∧ ∀ f ∈ fs, f.2.IsStructured := by
  cases h with
  | atom ha => cases ha
  | members hm => cases hm
  | record hs hfs => exact ⟨⟨_, hs⟩, hfs⟩

theorem IsStructured.of_key {k r b : Value} (h : (Value.key k r b).IsStructured) :
    k.IsStructured ∧ r.IsStructured ∧ b.IsStructured := by
  cases h with
  | atom ha => cases ha
  | members hm => cases hm
  | key hk hr hb => exact ⟨hk, hr, hb⟩

end RuleEngine.Value
