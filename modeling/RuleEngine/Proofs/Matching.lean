import Mathlib.Data.List.Perm.Basic

/-!
# Lists matched item by item

Two lists match under a relation if they have the same length and related items in the same places
(`List.Forall₂`). Where the order of the second list does not count, it matches after a permutation.

* `exists_of_forall₂`: each item of a matched list has its partner.
* `exists_matching`: a relation under which no two items share a partner matches a list with any
  list of at most its length that has partners for all of them.
* `forall₂_flatMap`, `forall₂_filterMap`: lists made item by item from one list.
-/

namespace RuleEngine

variable {α β : Type} {R : α → β → Prop} {xs : List α} {ys : List β}

/-- What every item of a list has an answer to, the list has answers to. -/
theorem exists_forall₂ (h : ∀ x ∈ xs, ∃ y, R x y) : ∃ ys, List.Forall₂ R xs ys := by
  induction xs with
  | nil => exact ⟨[], .nil⟩
  | cons x xs ih =>
    obtain ⟨hx, hxs⟩ := List.forall_mem_cons.mp h
    obtain ⟨y, hy⟩ := hx
    obtain ⟨ys, hys⟩ := ih hxs
    exact ⟨y :: ys, .cons hy hys⟩

theorem exists_of_forall₂ (h : List.Forall₂ R xs ys) {x : α} (hx : x ∈ xs) : ∃ y ∈ ys, R x y := by
  induction h with
  | nil => cases hx
  | cons hr _ ih =>
    rcases List.mem_cons.mp hx with rfl | hx
    · exact ⟨_, List.mem_cons_self, hr⟩
    · obtain ⟨y, hy, hxy⟩ := ih hx
      exact ⟨y, List.mem_cons_of_mem _ hy, hxy⟩

/-- Of matched items a relation may be replaced by one that follows from it for these items. -/
theorem forall₂_of_mem {S : α → β → Prop} (h : List.Forall₂ R xs ys)
    (hS : ∀ x ∈ xs, ∀ y ∈ ys, R x y → S x y) : List.Forall₂ S xs ys := by
  induction h with
  | nil => exact .nil
  | cons hr _ ih =>
    refine .cons (hS _ List.mem_cons_self _ List.mem_cons_self hr) (ih fun x hx y hy => ?_)
    exact hS x (List.mem_cons_of_mem _ hx) y (List.mem_cons_of_mem _ hy)

/-- What matches one list, once in one way and once in another, matches. -/
theorem forall₂_of_common {γ : Type} {S : α → γ → Prop} {T : β → γ → Prop} {zs : List γ}
    (h : List.Forall₂ R xs ys) (h' : List.Forall₂ S xs zs)
    (hT : ∀ x y z, R x y → S x z → T y z) : List.Forall₂ T ys zs := by
  induction h generalizing zs with
  | nil =>
    cases h'
    exact .nil
  | cons hr _ ih =>
    cases h' with
    | cons hs hss => exact .cons (hT _ _ _ hr hs) (ih hss)

/-- If matched items are related in one of two ways, then all in the first way or some in the
second. -/
theorem forall₂_or_exists {S : α → β → Prop} (h : List.Forall₂ (fun x y => R x y ∨ S x y) xs ys) :
    List.Forall₂ R xs ys ∨ ∃ x y, (x, y) ∈ xs.zip ys ∧ S x y := by
  induction h with
  | nil => exact .inl .nil
  | @cons x y xs ys hr _ ih =>
    rcases hr with hr | hs
    · rcases ih with ih | ⟨x', y', hmem, hs⟩
      · exact .inl (.cons hr ih)
      · exact .inr ⟨x', y', List.mem_cons_of_mem _ hmem, hs⟩
    · exact .inr ⟨x, y, List.mem_cons_self, hs⟩

/-- If no two items share a partner and all have one in a list that is not longer, the lists match
up to order. -/
theorem exists_matching (hlen : ys.length ≤ xs.length)
    (hown : xs.Pairwise fun x x' => ∀ y, R x y → ¬ R x' y) (hR : ∀ x ∈ xs, ∃ y ∈ ys, R x y) :
    ∃ zs, zs.Perm ys ∧ List.Forall₂ R xs zs := by
  induction xs generalizing ys with
  | nil =>
    rw [List.eq_nil_of_length_eq_zero (Nat.le_zero.mp hlen)]
    exact ⟨[], .refl _, .nil⟩
  | cons x xs ih =>
    obtain ⟨hx, hown⟩ := List.pairwise_cons.mp hown
    obtain ⟨z, hz, hxz⟩ := hR x List.mem_cons_self
    obtain ⟨as, bs, rfl⟩ := List.append_of_mem hz
    -- the partner of the first item is nobody else's, so the others have theirs in the rest
    have hrest : ∀ x' ∈ xs, ∃ y ∈ as ++ bs, R x' y := by
      intro x' hx'
      obtain ⟨y, hy, hr⟩ := hR x' (List.mem_cons_of_mem _ hx')
      refine ⟨y, ?_, hr⟩
      rcases List.mem_append.mp hy with hy | hy
      · exact List.mem_append_left _ hy
      · rcases List.mem_cons.mp hy with rfl | hy
        · exact absurd hr (hx x' hx' y hxz)
        · exact List.mem_append_right _ hy
    have hlen' : (as ++ bs).length ≤ xs.length := by
      simp only [List.length_append, List.length_cons] at hlen ⊢
      omega
    obtain ⟨zs, hperm, hzs⟩ := ih hlen' hown hrest
    exact ⟨z :: zs, (hperm.cons z).trans List.perm_middle.symm, .cons hxz hzs⟩

/-- A relation that gives each of at least as many things a partner of its own leaves none over. -/
theorem exists_partner (hlen : ys.length ≤ xs.length)
    (hown : xs.Pairwise fun x x' => ∀ y, R x y → ¬ R x' y) (hR : ∀ x ∈ xs, ∃ y ∈ ys, R x y) :
    ∀ y ∈ ys, ∃ x ∈ xs, R x y := by
  obtain ⟨zs, hperm, hzs⟩ := exists_matching hlen hown hR
  exact fun y hy => exists_of_forall₂ hzs.flip (hperm.mem_iff.mpr hy)

theorem forall₂_flatMap {γ : Type} {R : β → γ → Prop} {u : α → List β} {v : α → List γ}
    (h : ∀ x ∈ xs, List.Forall₂ R (u x) (v x)) : List.Forall₂ R (xs.flatMap u) (xs.flatMap v) := by
  induction xs with
  | nil => exact .nil
  | cons x xs ih =>
    obtain ⟨hx, hxs⟩ := List.forall_mem_cons.mp h
    exact List.rel_append hx (ih hxs)

theorem forall₂_filterMap {γ : Type} {R : β → γ → Prop} {u : α → Option β} {v : α → Option γ}
    (h : ∀ x ∈ xs, Option.Rel R (u x) (v x)) :
    List.Forall₂ R (xs.filterMap u) (xs.filterMap v) := by
  rw [List.filterMap_eq_flatMap_toList, List.filterMap_eq_flatMap_toList]
  refine forall₂_flatMap fun x hx => ?_
  have hpair := h x hx
  generalize u x = y, v x = z at hpair ⊢
  cases hpair with
  | none => exact .nil
  | some hr => exact .cons hr .nil

/-- Results for pairs of items, taken row by row or column by column. -/
theorem flatMap_filterMap_perm {γ : Type} (u : α → β → Option γ) :
    (xs.flatMap fun x => ys.filterMap (u x)).Perm
      (ys.flatMap fun y => xs.filterMap fun x => u x y) := by
  induction xs with
  | nil => simp
  | cons x xs ih =>
    have hcolumn (y : β) : ((x :: xs).filterMap fun x => u x y) =
        (u x y).toList ++ xs.filterMap fun x => u x y := by
      cases h : u x y <;> simp [h]
    simp only [List.flatMap_cons, hcolumn, List.filterMap_eq_flatMap_toList (u x)]
    exact (ih.append_left _).trans (List.flatMap_append_perm ys _ _)

theorem forall₂_filter_filterMap (f : α → Option β) (xs : List α) :
    List.Forall₂ (fun x y => f x = some y) (xs.filter fun x => (f x).isSome) (xs.filterMap f) := by
  induction xs with
  | nil => exact .nil
  | cons x xs ih =>
    cases hx : f x with
    | none => simpa [hx] using ih
    | some y => simpa [hx] using ih

/-- Lists with the same images in the same places match under having one image. -/
theorem map_eq_map_iff {γ : Type} {f : α → γ} {g : β → γ} :
    xs.map f = ys.map g ↔ List.Forall₂ (fun x y => f x = g y) xs ys := by
  rw [← List.forall₂_eq_eq_eq, List.forall₂_map_left_iff, List.forall₂_map_right_iff]

/-- Some of either list has a property, if matched items have it alike. -/
theorem any_congr_forall₂ {p : α → Bool} {q : β → Bool}
    (h : List.Forall₂ (fun x y => p x = q y) xs ys) : xs.any p = ys.any q := by
  induction h with
  | nil => rfl
  | cons hxy _ ih => rw [List.any_cons, List.any_cons, hxy, ih]

end RuleEngine
