import RuleEngine.Document.Compile
import RuleEngine.Proofs.Template
import RuleEngine.Proofs.Value.WellFormed

/-!
# Templates of declared effects

The check at compile time does not look at the template that is rendered, but at another value: the
template with its records seen as maps, whose maps and sets are built anew. Nothing gets lost on
that way, because a key that can still be a key afterwards has not changed (`exposed_of_hashable`).

* `exposed_variables`: what a template refers to, its exposed form refers to as well.
-/

namespace RuleEngine

open Value (WellFormed)

variable {v w : Value} {xs ys : List Value} {es fs : List (Value × Value)} {x : String}
variable {b : Binding}

namespace Value

/-! ## Sets built anew -/

theorem checkHashable_eq_ok : v.checkHashable = .ok () ↔ v.hashable = true := by
  unfold checkHashable hashable
  cases v.unhashable? <;> simp

theorem distinct_eq_self (h : xs.Pairwise fun x y => eqv x y = false) : distinct xs = xs := by
  have hfold : ∀ acc : List Value, (acc ++ xs).Pairwise (fun x y => eqv x y = false) →
      xs.foldl (fun acc x => if acc.any (· == x) then acc else acc ++ [x]) acc = acc ++ xs := by
    clear h
    induction xs with
    | nil => intro acc _; exact (List.append_nil acc).symm
    | cons x xs ih =>
      intro acc hacc
      have hnew : ¬ acc.any (· == x) = true := by
        rw [Bool.not_eq_true, List.any_eq_false]
        intro y hy
        exact Bool.eq_false_iff.mp ((List.pairwise_append.mp hacc).2.2 y hy x List.mem_cons_self)
      rw [List.foldl_cons, if_neg hnew, ih, List.append_assoc, List.singleton_append]
      rwa [List.append_assoc, List.singleton_append]
  exact hfold [] h

end Value

namespace Document

/-! ## The exposed form of a template -/

theorem exposedAll_eq_ok : exposedAll xs = .ok ys ↔
    List.Forall₂ (fun x y => exposed x = .ok y) xs ys := by
  induction xs generalizing ys with
  | nil => simp [exposedAll, eq_comm]
  | cons x xs ih =>
    simp only [exposedAll, bind_eq_ok, pure_eq_ok, ih, List.forall₂_cons_left_iff]
    constructor
    · intro ⟨y, hy, zs, hzs, h⟩
      exact ⟨y, zs, hy, hzs, h.symm⟩
    · intro ⟨y, zs, hy, hzs, h⟩
      exact ⟨y, hy, zs, hzs, h.symm⟩

theorem exposedEntries_eq_ok : exposedEntries es = .ok fs ↔
    List.Forall₂ (fun e f => exposed e.1 = .ok f.1 ∧ exposed e.2 = .ok f.2) es fs := by
  induction es generalizing fs with
  | nil => simp [exposedEntries, eq_comm]
  | cons e es ih =>
    simp only [exposedEntries, bind_eq_ok, pure_eq_ok, ih, List.forall₂_cons_left_iff]
    constructor
    · intro ⟨k, hk, v, hv, gs, hgs, h⟩
      exact ⟨(k, v), gs, ⟨hk, hv⟩, hgs, h.symm⟩
    · intro ⟨f, gs, ⟨hk, hv⟩, hgs, h⟩
      exact ⟨f.1, hk, f.2, hv, gs, hgs, h.symm⟩

theorem exposedAll_of_hashable (h : exposedAll xs = .ok ys) (hy : ∀ y ∈ ys, y.hashable = true)
    (ih : ∀ x ∈ xs, ∀ y, exposed x = .ok y → y.hashable = true → y = x) : ys = xs := by
  have h := exposedAll_eq_ok.mp h
  induction h with
  | nil => rfl
  | cons hxy _ ihs =>
    obtain ⟨hhead, htail⟩ := List.forall_mem_cons.mp hy
    obtain ⟨ihhead, ihtail⟩ := List.forall_mem_cons.mp ih
    rw [ihhead _ hxy hhead, ihs (exposedAll_eq_ok.mpr ‹_›) htail ihtail]

/-- A value whose exposed form can still be hashed has not changed: a record in it would have become
a map. -/
theorem exposed_of_hashable (hw : v.WellFormed) (h : exposed v = .ok w) (hh : w.hashable = true) :
    w = v := by
  induction hw generalizing w with
  | @atom v _ ha =>
    cases v with
    | var => cases h; cases hh
    | _ => first | exact (Except.ok.inj h).symm | cases ha
  | list =>
    simp only [exposed, bind_eq_ok, pure_eq_ok] at h
    obtain ⟨ys, -, rfl⟩ := h
    cases hh
  | tuple _ ih =>
    simp only [exposed, bind_eq_ok, pure_eq_ok] at h
    obtain ⟨ys, hys, rfl⟩ := h
    have hhash := Value.unhashableItem?_eq_none.mp (Option.isNone_iff_eq_none.mp hh)
    rw [exposedAll_of_hashable hys hhash fun x hx y hy hyh => ih x hx hy hyh]
  | @members v xs hm _ _ hd ih =>
    cases v with
    | set =>
      simp only [exposed, bind_eq_ok, Value.setOf, pure_eq_ok] at h
      obtain ⟨ys, -, _, -, rfl⟩ := h
      cases hh
    | frozenSet =>
      cases hm
      simp only [exposed, bind_eq_ok, Value.frozenSetOf, pure_eq_ok, forM_eq_ok,
        Value.checkHashable_eq_ok] at h
      obtain ⟨ys, hys, _, hhash, rfl⟩ := h
      rw [exposedAll_of_hashable hys hhash ih, Value.distinct_eq_self hd]
    | _ => cases hm
  | map =>
    simp only [exposed, bind_eq_ok, Value.mapOf, pure_eq_ok] at h
    obtain ⟨fs, -, _, -, rfl⟩ := h
    cases hh
  | @object c fs =>
    obtain ⟨r, hr⟩ : ∃ r, c.sort = r := ⟨_, rfl⟩
    cases r with
    | record =>
      simp only [exposed, hr, bind_eq_ok, pure_eq_ok] at h
      obtain ⟨es, -, rfl⟩ := h
      cases hh
    | labelled =>
      simp only [exposed, hr, Except.ok.injEq] at h
      exact h.symm
  | key =>
    simp only [exposed, bind_eq_ok, pure_eq_ok] at h
    obtain ⟨_, -, _, -, _, -, rfl⟩ := h
    cases hh
  | method => exact (Except.ok.inj h).symm

/-- The exposed form of a map has its keys, in order, with the exposed forms of their values. -/
theorem exposed_map (hw : (Value.map es).WellFormed) (h : exposed (.map es) = .ok w) :
    ∃ fs, w = .map fs ∧ List.Forall₂ (fun e f => f.1 = e.1 ∧ exposed e.2 = .ok f.2) es fs := by
  obtain ⟨hk, -, -, hd⟩ := hw.of_map
  simp only [exposed, bind_eq_ok, Value.mapOf, pure_eq_ok, forM_eq_ok,
    Value.checkHashable_eq_ok] at h
  obtain ⟨fs, hfs, _, hhash, rfl⟩ := h
  have hsame : List.Forall₂ (fun e f => f.1 = e.1 ∧ exposed e.2 = .ok f.2) es fs := by
    have hentries := exposedEntries_eq_ok.mp hfs
    clear hfs hd hw
    induction hentries with
    | nil => exact .nil
    | cons hef _ ih =>
      obtain ⟨hkey, hkeys⟩ := List.forall_mem_cons.mp hk
      obtain ⟨hhead, htail⟩ := List.forall_mem_cons.mp hhash
      exact .cons ⟨exposed_of_hashable hkey hef.1 hhead, hef.2⟩ (ih hkeys htail)
  have hkeys : fs.map (·.1) = es.map (·.1) := by
    clear hd hw hk hhash hfs
    induction hsame with
    | nil => rfl
    | cons hef _ ih => rw [List.map_cons, List.map_cons, hef.1, ih]
  exact ⟨fs, by rw [Assoc.update_eq_self (Assoc.distinct_of_keys hkeys hd)], hsame⟩

theorem exposed_variables (hw : v.WellFormed) (h : exposed v = .ok w) :
    ∀ x ∈ Template.variableNames v, x ∈ Template.variableNames w := by
  induction hw generalizing w with
  | @atom v _ ha =>
    cases v with
    | var => intro x hx; cases hx
    | _ => first | (rw [Except.ok.inj h]; exact fun x hx => hx) | cases ha
  | list _ ih | tuple _ ih =>
    simp only [exposed, bind_eq_ok, pure_eq_ok, exposedAll_eq_ok] at h
    obtain ⟨ys, hys, rfl⟩ := h
    simp only [Template.variableNames_list, Template.variableNames_tuple, List.mem_flatMap]
    intro x ⟨y, hy, hx⟩
    obtain ⟨z, hz, hyz⟩ := exists_of_forall₂ hys hy
    exact ⟨z, hz, ih y hy hyz x hx⟩
  | map hk hv hh hd _ ih =>
    obtain ⟨fs, rfl, hfs⟩ := exposed_map (.map hk hv hh hd) h
    simp only [Template.variableNames_map, List.mem_flatMap]
    intro x ⟨e, he, hx⟩
    obtain ⟨f, hf, -, hef⟩ := exists_of_forall₂ hfs he
    exact ⟨f, hf, ih e he hef x hx⟩
  | @members v _ hm =>
    intro x hx
    cases v with
    | set | frozenSet => cases hx
    | _ => cases hm
  | object | key | method =>
    intro x hx
    cases hx

end Document

end RuleEngine
