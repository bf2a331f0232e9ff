import Mathlib.Data.List.Sort
import RuleEngine.StableSort

/-!
# What a stable sort keeps

`StableSort.sort` is the insertion sort of the list library, so it gives a permutation. Further laws
say how its result depends on its input. Most need the test to be transitive, as every order by a
key is.

* `sort_map`, `sort_forall₂`: a sort depends on nothing but the answers to its test.
* `sort_eq_of_perm`: a sort by a strict test does not depend on the order of its input.
* `sort_sublist`, `sort_filter`: with some items left out, the others come out in the same order.
* `sort_flatMap_perm`: items that come in groups may have their groups exchanged, as long as no two
  items of different groups may stand in either order.
-/

namespace RuleEngine.StableSort

variable {α ι : Type} {before : α → α → Bool} {x y : α} {xs ys : List α}

theorem insert_eq_orderedInsert (x : α) (ys : List α) :
    insert before x ys = ys.orderedInsert (fun a b => before a b = true) x := by
  induction ys with
  | nil => rfl
  | cons y ys ih => rw [insert, List.orderedInsert_cons, ih]

theorem sort_eq_insertionSort (xs : List α) :
    sort before xs = xs.insertionSort fun a b => before a b = true := by
  induction xs with
  | nil => rfl
  | cons x xs ih => rw [sort, List.insertionSort_cons, insert_eq_orderedInsert, ih]

theorem sort_perm (before : α → α → Bool) (xs : List α) : (sort before xs).Perm xs := by
  rw [sort_eq_insertionSort]
  exact List.perm_insertionSort _ xs

/-- Sorting goes through a map: the images are sorted by the test of what they are images of. -/
theorem sort_map (f : ι → α) (is : List ι) :
    sort before (is.map f) = (sort (fun i j => before (f i) (f j)) is).map f := by
  have hinsert (i : ι) (js : List ι) : insert before (f i) (js.map f) =
      (insert (fun i j => before (f i) (f j)) i js).map f := by
    induction js with
    | nil => rfl
    | cons j js ih =>
      rw [List.map_cons, insert, insert]
      split
      · rfl
      · rw [ih, List.map_cons]
  induction is with
  | nil => rfl
  | cons i is ih => rw [List.map_cons, sort, sort, ih, hinsert]

theorem insert_forall₂ {β : Type} {before' : β → β → Bool} {R : α → β → Prop} {ys : List β} {y : β}
    (h : List.Forall₂ R xs ys) (hxy : R x y)
    (hb : ∀ x' ∈ xs, ∀ y', R x' y' → before x x' = before' y y') :
    List.Forall₂ R (insert before x xs) (insert before' y ys) := by
  induction h with
  | nil => exact .cons hxy .nil
  | @cons x' y' xs ys hx' hxs ih =>
    obtain ⟨hhead, htail⟩ := List.forall_mem_cons.mp hb
    rw [insert, insert, hhead y' hx']
    split
    · exact .cons hxy (.cons hx' hxs)
    · exact .cons hx' (ih htail)

/-- Lists that correspond item by item still do when sorted by tests that agree on them. -/
theorem sort_forall₂ {β : Type} {before' : β → β → Bool} {R : α → β → Prop} {ys : List β}
    (h : List.Forall₂ R xs ys)
    (hb : xs.Pairwise fun x x' => ∀ y y', R x y → R x' y' → before x x' = before' y y') :
    List.Forall₂ R (sort before xs) (sort before' ys) := by
  induction h with
  | nil => exact .nil
  | @cons x y xs ys hxy _ ih =>
    obtain ⟨hx, hb⟩ := List.pairwise_cons.mp hb
    refine insert_forall₂ (ih hb) hxy fun x' hx' y' hxy' => ?_
    exact hx x' ((sort_perm before xs).mem_iff.mp hx') y y' hxy hxy'

/-- A list that is in order already stays as it is. -/
theorem sort_eq_self (h : xs.Pairwise fun a b => before a b = true) : sort before xs = xs := by
  rw [sort_eq_insertionSort]
  exact h.insertionSort_eq

/-- A list with more items sorted into it, the last one first. -/
def insertAll (before : α → α → Bool) (xs ys : List α) : List α := xs.foldr (insert before) ys

theorem sort_append (xs ys : List α) :
    sort before (xs ++ ys) = insertAll before xs (sort before ys) := by
  induction xs with
  | nil => rfl
  | cons x xs ih => exact congrArg (insert before x) ih

section

variable (trans : ∀ a b c, before a b = true → before b c = true → before a c = true)

include trans

/-- Two items that cannot stand in either order may be inserted in either order. -/
theorem insert_insert (hxy : before x y = true) (hyx : before y x = false) (xs : List α) :
    insert before x (insert before y xs) = insert before y (insert before x xs) := by
  induction xs with
  | nil => simp [insert, hxy, hyx]
  | cons z zs ih =>
    by_cases hy : before y z = true
    · have hx : before x z = true := trans x y z hxy hy
      simp [insert, hx, hy, hxy, hyx]
    · by_cases hx : before x z = true
      · simp [insert, hx, hy, hyx]
      · simp [insert, hx, hy, ih]

theorem insert_insert_of_ne (h : before x y ≠ before y x) (xs : List α) :
    insert before x (insert before y xs) = insert before y (insert before x xs) := by
  cases hxy : before x y with
  | true =>
    have hyx : before y x = false := by simpa [hxy] using h.symm
    exact insert_insert trans hxy hyx xs
  | false =>
    have hyx : before y x = true := by simpa [hxy] using h.symm
    exact (insert_insert trans hyx hxy xs).symm

theorem insert_insertAll (h : ∀ y ∈ ys, before x y ≠ before y x) (zs : List α) :
    insert before x (insertAll before ys zs) = insertAll before ys (insert before x zs) := by
  induction ys with
  | nil => rfl
  | cons y ys ih =>
    obtain ⟨hy, hys⟩ := List.forall_mem_cons.mp h
    have hswap := insert_insert_of_ne trans hy (insertAll before ys zs)
    exact hswap.trans (congrArg (insert before y) (ih hys))

theorem insertAll_insertAll (h : ∀ x ∈ xs, ∀ y ∈ ys, before x y ≠ before y x) (zs : List α) :
    insertAll before xs (insertAll before ys zs) =
      insertAll before ys (insertAll before xs zs) := by
  induction xs with
  | nil => rfl
  | cons x xs ih =>
    obtain ⟨hx, hxs⟩ := List.forall_mem_cons.mp h
    have hrest := congrArg (insert before x) (ih hxs)
    exact hrest.trans (insert_insertAll trans hx (insertAll before xs zs))

/-- Groups may be exchanged, if no two items of different groups may stand in either order. -/
theorem sort_flatMap_perm {f : ι → List α} {is js : List ι} (hp : is.Perm js)
    (h : is.Pairwise fun i j => ∀ x ∈ f i, ∀ y ∈ f j, before x y ≠ before y x) :
    sort before (is.flatMap f) = sort before (js.flatMap f) := by
  induction hp with
  | nil => rfl
  | cons i _ ih =>
    have hrest := ih (List.pairwise_cons.mp h).2
    simp only [List.flatMap_cons, sort_append, hrest]
  | swap i j is =>
    have hij := (List.pairwise_cons.mp h).1 i List.mem_cons_self
    simp only [List.flatMap_cons, sort_append]
    exact insertAll_insertAll trans hij _
  | trans hp _ ih ih' =>
    refine (ih h).trans (ih' ?_)
    exact (hp.pairwise_iff fun h y hy x hx => (h x hx y hy).symm).mp h

theorem sort_pairwise (total : ∀ a b, before a b = true ∨ before b a = true) (xs : List α) :
    (sort before xs).Pairwise fun a b => before a b = true := by
  have : Std.Total fun a b => before a b = true := ⟨total⟩
  have : IsTrans α fun a b => before a b = true := ⟨trans⟩
  rw [sort_eq_insertionSort]
  exact List.pairwise_insertionSort _ _

/-- Where no two different items may stand in either order, the order in which they were given
leaves no trace. -/
theorem sort_eq_of_perm (total : ∀ a b, before a b = true ∨ before b a = true) (h : xs.Perm ys)
    (hne : ∀ x ∈ xs, ∀ y ∈ xs, before x y = true → before y x = true → x = y) :
    sort before xs = sort before ys := by
  refine List.Perm.eq_of_pairwise ?_ (sort_pairwise trans total xs) (sort_pairwise trans total ys)
    ((sort_perm before xs).trans (h.trans (sort_perm before ys).symm))
  intro x y hx hy
  exact hne x ((sort_perm before xs).mem_iff.mp hx) y
    (h.mem_iff.mpr ((sort_perm before ys).mem_iff.mp hy))

/-- With some items left out, the others come out in the same order. -/
theorem sort_sublist (total : ∀ a b, before a b = true ∨ before b a = true)
    (h : xs.Sublist ys) : (sort before xs).Sublist (sort before ys) := by
  have : Std.Total fun a b => before a b = true := ⟨total⟩
  have : IsTrans α fun a b => before a b = true := ⟨trans⟩
  simp only [sort_eq_insertionSort]
  induction h with
  | slnil => exact .refl _
  | cons y _ ih => exact ih.trans (List.sublist_orderedInsert _ _)
  | cons_cons x _ ih => exact ih.orderedInsert_sublist x (List.pairwise_insertionSort _ _)

/-- It makes no difference whether items are left out before or after sorting. -/
theorem sort_filter (total : ∀ a b, before a b = true ∨ before b a = true) (p : α → Bool)
    (xs : List α) : sort before (xs.filter p) = (sort before xs).filter p := by
  have hperm : (sort before (xs.filter p)).Perm ((sort before xs).filter p) :=
    (sort_perm before _).trans ((sort_perm before xs).filter p).symm
  have hkept : (sort before (xs.filter p)).filter p = sort before (xs.filter p) := by
    refine List.filter_eq_self.mpr fun x hx => ?_
    exact (List.mem_filter.mp ((sort_perm before _).mem_iff.mp hx)).2
  have hsub := (sort_sublist trans total (List.filter_sublist (p := p) (l := xs))).filter p
  rw [hkept] at hsub
  exact hsub.eq_of_length hperm.length_eq

end

end RuleEngine.StableSort
