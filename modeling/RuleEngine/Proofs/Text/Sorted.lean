import Mathlib.Data.List.Pairwise
import RuleEngine.Proofs.StableSort
import RuleEngine.Text.Sorted

/-!
# Sorting by text

The order of code points is total, and texts that may stand in either order are one text. So the
sorted form of a list of texts is that of every permutation, and of no other list.

* `sort_eq_iff`: sorted lists of texts are equal exactly for permutations.
* `sortOn_eq_sort`: sorting by a text of each item is sorting by the order of these texts.
* `lt_append_iff`: which of two texts comes first is decided before they end, if neither begins the
  other.
-/

namespace RuleEngine.Text

variable {α : Type} {xs ys : List String}

theorem notAfter_iff {s t : String} : notAfter s t = true ↔ s ≤ t := by
  simp only [notAfter, Bool.not_eq_true', decide_eq_false_iff_not, String.not_lt]

theorem notAfter_total (s t : String) : notAfter s t = true ∨ notAfter t s = true := by
  rw [notAfter_iff, notAfter_iff]
  exact String.le_total s t

theorem notAfter_trans (s t u : String) (hst : notAfter s t = true) (htu : notAfter t u = true) :
    notAfter s u = true := by
  rw [notAfter_iff] at hst htu ⊢
  exact String.le_trans hst htu

theorem notAfter_antisymm {s t : String} (hst : notAfter s t = true) (hts : notAfter t s = true) :
    s = t := by
  rw [notAfter_iff] at hst hts
  exact String.le_antisymm hst hts

theorem sort_perm (xs : List String) : (sort xs).Perm xs := StableSort.sort_perm notAfter xs

/-- Texts come out alike exactly if they are the same texts, each as often. -/
theorem sort_eq_iff : sort xs = sort ys ↔ xs.Perm ys := by
  constructor
  · intro h
    exact (sort_perm xs).symm.trans (h ▸ sort_perm ys)
  · intro h
    exact StableSort.sort_eq_of_perm notAfter_trans notAfter_total h
      fun _ _ _ _ => notAfter_antisymm

theorem sortOn_eq_sort (key : α → String) (xs : List α) :
    sortOn key xs = StableSort.sort (fun x y => notAfter (key x) (key y)) xs := by
  rw [sortOn, StableSort.sort_map, List.map_map]
  exact List.map_id' _

theorem sort_map (key : α → String) (xs : List α) :
    sort (xs.map key) = (sortOn key xs).map key := by
  rw [sortOn_eq_sort, sort, StableSort.sort_map]

theorem sortOn_map {β : Type} (key : β → String) (f : α → β) (xs : List α) :
    sortOn key (xs.map f) = (sortOn (fun x => key (f x)) xs).map f := by
  rw [sortOn_eq_sort, sortOn_eq_sort, StableSort.sort_map]

theorem sortOn_perm (key : α → String) (xs : List α) : (sortOn key xs).Perm xs := by
  rw [sortOn_eq_sort]
  exact StableSort.sort_perm _ xs

/-- Items with different texts come out in one order, however they were given. -/
theorem sortOn_eq_of_perm {key : α → String} {xs ys : List α} (h : xs.Perm ys)
    (hne : xs.Pairwise fun x y => key x ≠ key y) : sortOn key xs = sortOn key ys := by
  have : Std.Symm fun x y => key x ≠ key y := ⟨fun _ _ h => h.symm⟩
  have hinj : ∀ x ∈ xs, ∀ y ∈ xs, key x = key y → x = y := by
    intro x hx y hy hk
    by_contra hxy
    exact hne.forall hx hy hxy hk
  rw [sortOn_eq_sort, sortOn_eq_sort]
  refine StableSort.sort_eq_of_perm (fun a b c => notAfter_trans _ _ _)
    (fun a b => notAfter_total _ _) h ?_
  exact fun x hx y hy hxy hyx => hinj x hx y hy (notAfter_antisymm hxy hyx)

/-! ## Texts that differ before one of them ends -/

/-- Neither text begins the other. -/
def Diverge (cs ds : List Char) : Prop := ∀ r s, cs ++ r ≠ ds ++ s

theorem Diverge.symm {cs ds : List Char} (h : Diverge cs ds) : Diverge ds cs :=
  fun r s he => h s r he.symm

/-- Which of two texts is less is decided where they diverge; what follows makes no difference. -/
theorem lt_append_iff {cs ds : List Char} (h : Diverge cs ds) (r s r' s' : List Char) :
    cs ++ r < ds ++ s ↔ cs ++ r' < ds ++ s' := by
  induction cs generalizing ds with
  | nil => exact absurd (by simp) (h ds [])
  | cons c cs ih =>
    cases ds with
    | nil => exact absurd (by simp) (h [] (c :: cs))
    | cons d ds =>
      simp only [List.cons_append, List.cons_lt_cons_iff]
      by_cases hcd : c = d
      · have hrest : Diverge cs ds := fun r s he => h r s (by simp [hcd, he])
        simp only [ih hrest]
      · simp [hcd]

end RuleEngine.Text
