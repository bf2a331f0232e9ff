import RuleEngine.Proofs.Matching
import RuleEngine.Proofs.Value.Plain

/-!
# Content of values

The content of scalars, octets, sequences, sets and maps is what remains if lists are not told from
tuples, sets not from frozen sets, and sets and maps forget the order of their parts. Unlike the
equality of values it tells `1`, `1.0` and `true` apart, and `0.0` from `-0.0`.

* `SameContent.isOverlongContent_eq`: of two values with one content both can be written or neither.
-/

namespace RuleEngine.Value

variable {u v : Value} {xs ys : List Value} {es fs : List (Value × Value)}

def sequence? : Value → Option (List Value)
  | .list xs | .tuple xs => some xs
  | _ => Option.none

/-- A value made of scalars, octets, sequences, sets and maps. -/
inductive IsContent : Value → Prop where
  | scalar {v : Value} (scalar : v.IsScalar) : IsContent v
  | bytes (bs : List UInt8) : IsContent (.bytes bs)
  | sequence {v : Value} {xs : List Value} (sequence : v.sequence? = some xs)
      (items : ∀ x ∈ xs, IsContent x) : IsContent v
  | members {v : Value} {xs : List Value} (members : v.members? = some xs)
      (items : ∀ x ∈ xs, IsContent x) : IsContent v
  | map {es : List (Value × Value)} (keys : ∀ e ∈ es, IsContent e.1)
      (values : ∀ e ∈ es, IsContent e.2) : IsContent (.map es)

/-- Two values with one content: scalars and octets that are the same, sequences item by item, sets
whose members and maps whose entries correspond one to one. -/
inductive SameContent : Value → Value → Prop where
  | scalar {v : Value} (scalar : v.IsScalar) : SameContent v v
  | bytes (bs : List UInt8) : SameContent (.bytes bs) (.bytes bs)
  | sequence {u v : Value} {xs ys : List Value} (left : u.sequence? = some xs)
      (right : v.sequence? = some ys) (length : xs.length = ys.length)
      (items : ∀ x y, (x, y) ∈ xs.zip ys → SameContent x y) : SameContent u v
  | members {u v : Value} {xs ys zs : List Value} (left : u.members? = some xs)
      (right : v.members? = some ys) (perm : zs.Perm ys) (length : xs.length = zs.length)
      (items : ∀ x z, (x, z) ∈ xs.zip zs → SameContent x z) : SameContent u v
  | map {es fs gs : List (Value × Value)} (perm : gs.Perm fs) (length : es.length = gs.length)
      (keys : ∀ e g, (e, g) ∈ es.zip gs → SameContent e.1 g.1)
      (values : ∀ e g, (e, g) ∈ es.zip gs → SameContent e.2 g.2) :
      SameContent (.map es) (.map fs)

/-! ## What can be written -/

theorem isOverlongContent_of_sequence (h : v.sequence? = some xs) :
    v.isOverlongContent = xs.any isOverlongContent := by
  rw [← isOverlongContentAny_eq]
  cases v with
  | list | tuple => cases h; rfl
  | _ => cases h

theorem isOverlongContent_of_members (h : v.members? = some xs) :
    v.isOverlongContent = xs.any isOverlongContent := by
  rw [← isOverlongContentAny_eq]
  cases v with
  | set | frozenSet => cases h; rfl
  | _ => cases h

/-- Of two values with one content both can be written or neither. -/
theorem SameContent.isOverlongContent_eq (h : u.SameContent v) :
    u.isOverlongContent = v.isOverlongContent := by
  induction h with
  | scalar | bytes => rfl
  | sequence hu hv hlen _ ih =>
    rw [isOverlongContent_of_sequence hu, isOverlongContent_of_sequence hv]
    exact any_congr_forall₂ (List.forall₂_iff_zip.mpr ⟨hlen, ih _ _⟩)
  | members hu hv hperm hlen _ ih =>
    rw [isOverlongContent_of_members hu, isOverlongContent_of_members hv, ← hperm.any_eq]
    exact any_congr_forall₂ (List.forall₂_iff_zip.mpr ⟨hlen, ih _ _⟩)
  | @map es fs gs hperm hlen _ _ ihk ihv =>
    rw [isOverlongContent, isOverlongContent, isOverlongContentEntry_eq, isOverlongContentEntry_eq,
      ← hperm.any_eq]
    refine any_congr_forall₂ (List.forall₂_iff_zip.mpr ⟨hlen, fun hmem => ?_⟩)
    rw [ihk _ _ hmem, ihv _ _ hmem]

end RuleEngine.Value
