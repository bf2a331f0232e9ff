import Mathlib.Data.List.Induction
import RuleEngine.Proofs.Traced
import RuleEngine.Source.RuleSet

/-!
# Chains of classes

In a chain every class extends the one before it and no other. Merging the resolution order of that
one with its mere position gives the order itself (`merge_head`), so names are resolved in the last
class first, and then back class by class (`Chain.ofClasses_last`).

* `Chain.definitions`: a class of a chain defines what it declares and nothing else.
-/

namespace RuleEngine

namespace Resolution

variable {c : Nat} {cs : List Nat} {fuel : Nat} {orders seqs : List (List Nat)}

theorem merge_nil_right : merge fuel (seqs ++ [[]]) = merge fuel seqs := by
  cases fuel with
  | zero => rfl
  | succ fuel => simp [merge]

theorem merge_single (hcs : cs.Nodup) (hfuel : cs.length < fuel) : merge fuel [cs] = some cs := by
  induction cs generalizing fuel with
  | nil =>
    cases fuel with
    | zero => cases hfuel
    | succ fuel => rfl
  | cons c cs ih =>
    cases fuel with
    | zero => cases hfuel
    | succ fuel =>
      obtain ⟨hc, hcs⟩ := List.nodup_cons.mp hcs
      have hrest := ih hcs (Nat.lt_of_succ_lt_succ hfuel)
      simp [merge, candidate?, dropHead, hc, hrest]

/-- The order of a class and the mere position of that class are merged to the order. -/
theorem merge_head (hcs : (c :: cs).Nodup) (hfuel : cs.length + 1 < fuel) :
    merge fuel [c :: cs, [c]] = some (c :: cs) := by
  cases fuel with
  | zero => cases hfuel
  | succ fuel =>
    obtain ⟨hc, hcs⟩ := List.nodup_cons.mp hcs
    have hrest : merge fuel ([cs] ++ [[]]) = some cs :=
      merge_nil_right.trans (merge_single hcs (Nat.lt_of_succ_lt_succ hfuel))
    rw [List.singleton_append] at hrest
    simp [merge, candidate?, dropHead, hc, hrest]

/-- A class that extends a single one comes before all those that one comes before. -/
theorem next_single (h : orders[c]? = some (c :: cs)) (hcs : (c :: cs).Nodup) :
    next orders [c] = some (orders.length :: c :: cs) := by
  have hseqs : [c].map (fun b => orders.getD b []) ++ [[c]] = [c :: cs, [c]] := by
    simp [List.getD_eq_getElem?_getD, h]
  have hmerge : merge ([c :: cs, [c]].flatten.length + 1) [c :: cs, [c]] = some (c :: cs) :=
    merge_head hcs (by simp)
  have honce : [c].eraseDups.length = [c].length := rfl
  simp only [next, hseqs, hmerge, if_pos honce]
  rfl

end Resolution

namespace HostClass

variable {made cs : List HostClass} {d : ClassDeclaration} {bases : List Nat}

theorem make_eq_ok (h : make made d = .ok cs)
    (hbases : d.bases.mapM (place made.length) = .ok bases) :
    ∃ slots order layout, d.slots = .ok slots ∧ d.check = .ok () ∧
      Resolution.next (made.map (·.order)) bases = some order ∧
      cs = made ++ [⟨d.name, d.definitions slots, order, layout⟩] := by
  unfold make at h
  obtain ⟨bases', hb, h⟩ := bind_eq_ok.mp h
  obtain rfl := Except.ok.inj (hbases.symm.trans hb)
  obtain ⟨inherited, -, h⟩ := bind_eq_ok.mp h
  obtain ⟨slots, hslots, h⟩ := bind_eq_ok.mp h
  obtain ⟨⟨⟩, hcheck, h⟩ := bind_eq_ok.mp h
  split at h
  · cases h
  · rename_i order horder
    split at h
    · cases h
    · exact ⟨slots, order, _, hslots, hcheck, horder, (Except.ok.inj h).symm⟩

end HostClass

/-- The position before a position, if there is one. -/
def previous : Nat → List Nat
  | 0 => []
  | n + 1 => [n]

/-- The classes are made of the declarations in order, each of which extends just the class before
it, and the first one none. -/
inductive Chain : List ClassDeclaration → List HostClass → Prop where
  | nil : Chain [] []
  | snoc {ds : List ClassDeclaration} {cs cs' : List HostClass} {d : ClassDeclaration}
      (chain : Chain ds cs)
      (base : d.bases.mapM (HostClass.place cs.length) = .ok (previous cs.length))
      (made : HostClass.make cs d = .ok cs') : Chain (ds ++ [d]) cs'

namespace Chain

variable {ds : List ClassDeclaration} {cs : List HostClass}

/-- In every class of a chain names are resolved in it first, and then back to the first class. -/
theorem orders (h : Chain ds cs) :
    cs.map (·.order) = (List.range cs.length).map fun i => (List.range (i + 1)).reverse := by
  induction h with
  | nil => rfl
  | @snoc ds cs cs' d _ hbase hmade ih =>
    obtain ⟨slots, order, layout, -, -, hnext, rfl⟩ := HostClass.make_eq_ok hmade hbase
    have horder : order = (List.range (cs.length + 1)).reverse := by
      rw [ih] at hnext
      cases hlength : cs.length with
      | zero =>
        rw [hlength] at hnext
        exact (Option.some.inj hnext).symm
      | succ n =>
        rw [hlength] at hnext
        have hlast : (List.range (n + 1)).reverse = n :: (List.range n).reverse := by
          simp [List.range_succ]
        have hget : ((List.range (n + 1)).map fun i => (List.range (i + 1)).reverse)[n]? =
            some (n :: (List.range n).reverse) := by
          simp [hlast]
        have hnodup : (n :: (List.range n).reverse).Nodup :=
          hlast ▸ List.pairwise_reverse.mpr (List.nodup_range.imp Ne.symm)
        rw [previous, Resolution.next_single hget hnodup, List.length_map,
          List.length_range] at hnext
        rw [← Option.some.inj hnext, List.range_succ, List.reverse_append, ← hlast]
        rfl
    simp [ih, horder, List.range_succ]

theorem filterMap_range (cs : List HostClass) :
    (List.range cs.length).filterMap (fun j => cs[j]?) = cs := by
  induction cs using List.reverseRecOn with
  | nil => rfl
  | append_singleton cs c ih =>
    have hold : (List.range cs.length).filterMap (fun j => (cs ++ [c])[j]?) = cs := by
      conv_rhs => rw [← ih]
      refine List.filterMap_congr fun j hj => ?_
      exact List.getElem?_append_left (List.mem_range.mp hj)
    rw [List.length_append, List.length_singleton, List.range_succ, List.filterMap_append, hold]
    simp

/-- The last class of a chain is a rule set of all of them, the last one first. -/
theorem ofClasses_last (h : Chain ds cs) (hne : cs ≠ []) :
    RuleSet.ofClasses cs (-1) = .ok ⟨cs.reverse⟩ := by
  obtain ⟨n, hn⟩ : ∃ n, cs.length = n + 1 :=
    Nat.exists_eq_succ_of_ne_zero (mt List.length_eq_zero_iff.mp hne)
  have hplace : HostClass.place cs.length (-1) = .ok n := by
    unfold HostClass.place
    simp only [hn]
    rw [if_pos (by omega)]
    exact congrArg Except.ok (by omega)
  have horder : cs[n]?.map (·.order) = some (List.range cs.length).reverse := by
    rw [← List.getElem?_map, h.orders]
    simp [hn]
  unfold RuleSet.ofClasses
  rw [hplace]
  change Except.ok _ = _
  rw [horder, Option.getD_some, List.filterMap_reverse, filterMap_range]

theorem definitions (h : Chain ds cs) : List.Forall₂ (fun d c => c.name = d.name ∧
    ∃ slots, d.slots = .ok slots ∧ c.definitions = d.definitions slots) ds cs := by
  induction h with
  | nil => exact .nil
  | snoc _ hbase hmade ih =>
    obtain ⟨slots, order, layout, hslots, -, -, rfl⟩ := HostClass.make_eq_ok hmade hbase
    exact List.rel_append ih (.cons ⟨rfl, slots, hslots, rfl⟩ .nil)

end Chain

end RuleEngine
