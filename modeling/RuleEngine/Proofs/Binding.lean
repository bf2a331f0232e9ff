import Mathlib.Data.List.Induction
import Mathlib.Data.List.Pairwise
import RuleEngine.Binding
import RuleEngine.Proofs.Assoc
import RuleEngine.Proofs.Value.Equality

/-!
# Unifying bindings

Unifying goes through the variables of the second binding one by one. Of two bindings that are
proper maps it succeeds exactly if they agree on every variable they share (`Agree`), and gives the
first one with what only the second one binds (`merge`). So what is left of a list of bindings
unified one after the other is their `union`: each variable has the value of the earliest binding
that has it.

* `unify_eq_some`: when unifying succeeds, and with what.
* `agree_union`: a binding agrees with a union exactly if it agrees with all of its parts.
* `lookup_union`: the value of a variable in a union.
-/

namespace RuleEngine

namespace Binding

variable {b c d : Binding}

def Proper (b : Binding) : Prop := (Value.map b).Proper

/-- The bindings give equal values to every variable they share. -/
def Agree (b c : Binding) : Prop := ∀ e ∈ b, ∀ f ∈ c, (e.1 == f.1) = true → (e.2 == f.2) = true

/-- The first binding, with the variables that only the second one binds. -/
def merge (b c : Binding) : Binding := b ++ c.filter fun e => !Assoc.contains e.1 b

/-- Each variable that one of the bindings has, with its value in the earliest one. -/
def union (bs : List Binding) : Binding := bs.foldl merge []

theorem nil_agree : Agree [] c := fun _ h => nomatch h

theorem agree_nil : Agree b [] := fun _ _ _ h => nomatch h

theorem nil_merge : merge [] c = c := by simp [merge, Assoc.contains]

theorem merge_nil : merge b [] = b := List.append_nil b

theorem proper_iff : b.Proper ↔ (∀ e ∈ b, e.1.Proper) ∧ (∀ e ∈ b, e.2.Proper) ∧
    b.Pairwise fun e f => (e.1 == f.1) = false := by
  constructor
  · intro h
    cases h with
    | atom h => cases h
    | members h => cases h
    | map hk hv hd => exact ⟨hk, hv, hd⟩
  · rintro ⟨hk, hv, hd⟩
    exact .map hk hv hd

theorem Proper.nil : Proper [] := .map (fun _ h => nomatch h) (fun _ h => nomatch h) .nil

/-! ## One variable -/

theorem Proper.key_isSteady (hb : b.Proper) {e : Value × Value} (he : e ∈ b) : e.1.IsSteady :=
  ((proper_iff.mp hb).1 e he).isSteady

theorem Proper.value_isSteady (hb : b.Proper) {e : Value × Value} (he : e ∈ b) : e.2.IsSteady :=
  ((proper_iff.mp hb).2.1 e he).isSteady

theorem Proper.eq_of_key (hb : b.Proper) {e f : Value × Value} (he : e ∈ b) (hf : f ∈ b)
    {k : Value} (hek : (e.1 == k) = true) (hfk : (f.1 == k) = true) : e = f := by
  have hd := (proper_iff.mp hb).2.2
  have hfwd : b.Pairwise fun e f => (e.1 == f.1) = true → e = f :=
    hd.imp fun hne h => by rw [hne] at h; cases h
  have hbwd : b.Pairwise fun e f => (f.1 == e.1) = true → f = e :=
    hd.imp_of_mem fun _ hy hne h =>
      absurd (hne.symm.trans ((hb.key_isSteady hy).symm h)) Bool.false_ne_true
  exact List.Pairwise.forall_of_forall_of_flip (fun _ _ _ => rfl) hfwd hbwd he hf
    ((hb.key_isSteady he).join (hb.key_isSteady hf) hek hfk)

theorem Proper.append_new (hb : b.Proper) {e : Value × Value} (hk : e.1.Proper) (hv : e.2.Proper)
    (h : ∀ f ∈ b, (f.1 == e.1) = false) : Proper (b ++ [e]) := by
  obtain ⟨hks, hvs, hd⟩ := proper_iff.mp hb
  refine proper_iff.mpr ⟨?_, ?_, ?_⟩
  · simpa [or_imp, forall_and] using ⟨fun k v he => hks (k, v) he, hk⟩
  · simpa [or_imp, forall_and] using ⟨fun k v he => hvs (k, v) he, hv⟩
  · exact List.pairwise_append.mpr ⟨hd, List.pairwise_singleton _ _, by simpa using h⟩

theorem Proper.of_cons {e : Value × Value} (h : Proper (e :: c)) :
    e.1.Proper ∧ e.2.Proper ∧ (∀ f ∈ c, (e.1 == f.1) = false) ∧ c.Proper := by
  obtain ⟨hk, hv, hd⟩ := proper_iff.mp h
  obtain ⟨hek, hk⟩ := List.forall_mem_cons.mp hk
  obtain ⟨hev, hv⟩ := List.forall_mem_cons.mp hv
  obtain ⟨hed, hd⟩ := List.pairwise_cons.mp hd
  exact ⟨hek, hev, hed, proper_iff.mpr ⟨hk, hv, hd⟩⟩

/-- Adding a variable that is bound already compares its two values. -/
theorem unifyOne_of_bound (hb : b.Proper) {e g : Value × Value} (hg : g ∈ b)
    (h : (g.1 == e.1) = true) : b.unifyOne e = if g.2 == e.2 then some b else none := by
  unfold unifyOne
  cases hl : Assoc.lookup e.1 b with
  | none =>
    rw [Assoc.lookup_eq_none.mp hl g hg] at h
    cases h
  | some v =>
    obtain ⟨g', hg', hk, rfl⟩ := Assoc.mem_of_lookup hl
    rw [hb.eq_of_key hg hg' h hk]

theorem unifyOne_of_new {e : Value × Value} (h : ∀ g ∈ b, (g.1 == e.1) = false) :
    b.unifyOne e = some (b ++ [e]) := by
  unfold unifyOne
  rw [Assoc.lookup_eq_none.mpr h]

/-! ## All variables -/

theorem agree_cons {e : Value × Value} : Agree b (e :: c) ↔
    (∀ g ∈ b, (g.1 == e.1) = true → (g.2 == e.2) = true) ∧ Agree b c := by
  simp only [Agree, List.forall_mem_cons, forall_and]

theorem merge_cons_of_bound {e g : Value × Value} (hg : g ∈ b) (h : (g.1 == e.1) = true) :
    merge b (e :: c) = merge b c := by
  have hc : Assoc.contains e.1 b = true := List.any_eq_true.mpr ⟨g, hg, h⟩
  simp [merge, hc]

/-- A new variable in front of others can just as well be added at once. -/
theorem merge_cons_of_new {e : Value × Value} (h : ∀ g ∈ b, (g.1 == e.1) = false)
    (hc : ∀ f ∈ c, (e.1 == f.1) = false) : merge b (e :: c) = merge (b ++ [e]) c := by
  have hn : Assoc.contains e.1 b = false := Assoc.contains_eq_false.mpr h
  have hf : (c.filter fun f => !Assoc.contains f.1 b) =
      c.filter fun f => !Assoc.contains f.1 (b ++ [e]) := by
    refine List.filter_congr fun f hf => ?_
    simp only [Assoc.contains, List.any_append, List.any_cons, List.any_nil, hc f hf, Bool.or_false]
  rw [merge, merge, List.filter_cons_of_pos (by simp [hn]), hf, List.append_assoc]
  rfl

theorem foldlM_unifyOne (hb : b.Proper) (hc : c.Proper) :
    c.foldlM unifyOne b = some d ↔ Agree b c ∧ d = merge b c := by
  induction c generalizing b with
  | nil =>
    rw [List.foldlM_nil, merge_nil]
    exact ⟨fun h => ⟨agree_nil, (Option.some.inj h).symm⟩, fun h => congrArg some h.2.symm⟩
  | cons e c ih =>
    obtain ⟨hek, hev, hed, hc⟩ := hc.of_cons
    rw [List.foldlM_cons, agree_cons]
    by_cases hg : ∃ g ∈ b, (g.1 == e.1) = true
    · obtain ⟨g, hg, hge⟩ := hg
      rw [unifyOne_of_bound hb hg hge, merge_cons_of_bound hg hge]
      have hall : (∀ g ∈ b, (g.1 == e.1) = true → (g.2 == e.2) = true) ↔ (g.2 == e.2) = true := by
        refine ⟨fun h => h g hg hge, fun h g' hg' hge' => ?_⟩
        rwa [← hb.eq_of_key hg hg' hge hge']
      rw [hall]
      split
      · rename_i hv
        simp only [Option.bind_eq_bind, Option.bind_some, ih hb hc, hv, true_and]
      · rename_i hv
        simp [hv]
    · have hnew : ∀ g ∈ b, (g.1 == e.1) = false := by simpa using hg
      have hold : Agree (b ++ [e]) c ↔ Agree b c := by
        refine ⟨fun h g hg => h g (List.mem_append_left _ hg), fun h g hg f hf hgf => ?_⟩
        rcases List.mem_append.mp hg with hg | hg
        · exact h g hg f hf hgf
        · rw [List.mem_singleton.mp hg, hed f hf] at hgf
          cases hgf
      rw [unifyOne_of_new hnew, Option.bind_eq_bind, Option.bind_some,
        ih (hb.append_new hek hev hnew) hc, hold, merge_cons_of_new hnew hed]
      refine and_congr_left fun _ => ⟨fun h => ⟨fun g hg hge => ?_, h⟩, fun h => h.2⟩
      rw [hnew g hg] at hge
      cases hge

/-- Proper bindings unify exactly if they agree, and then to their merge. An empty side is no
exception. -/
theorem unify_eq_some (hb : b.Proper) (hc : c.Proper) :
    b.unify c = some d ↔ Agree b c ∧ d = merge b c := by
  unfold unify
  split
  · rename_i h
    rw [List.isEmpty_iff.mp h, nil_merge]
    exact ⟨fun h => ⟨nil_agree, (Option.some.inj h).symm⟩, fun h => congrArg some h.2.symm⟩
  · split
    · rename_i h
      rw [List.isEmpty_iff.mp h, merge_nil]
      exact ⟨fun h => ⟨agree_nil, (Option.some.inj h).symm⟩, fun h => congrArg some h.2.symm⟩
    · exact foldlM_unifyOne hb hc

theorem Proper.merge (hb : b.Proper) (hc : c.Proper) : (merge b c).Proper := by
  obtain ⟨hbk, hbv, hbd⟩ := proper_iff.mp hb
  obtain ⟨hck, hcv, hcd⟩ := proper_iff.mp hc
  refine proper_iff.mpr ⟨fun e he => ?_, fun e he => ?_, ?_⟩
  · rcases List.mem_append.mp he with he | he
    · exact hbk e he
    · exact hck e (List.mem_filter.mp he).1
  · rcases List.mem_append.mp he with he | he
    · exact hbv e he
    · exact hcv e (List.mem_filter.mp he).1
  · refine List.pairwise_append.mpr ⟨hbd, hcd.filter _, fun e he f hf => ?_⟩
    have hf := (List.mem_filter.mp hf).2
    exact Assoc.contains_eq_false.mp (by simpa using hf) e he

/-! ## Many bindings -/

theorem union_append {bs : List Binding} : union (bs ++ [b]) = merge (union bs) b := by
  simp [union]

theorem Proper.union {bs : List Binding} (h : ∀ b ∈ bs, b.Proper) : (union bs).Proper := by
  induction bs using List.reverseRecOn with
  | nil => exact .nil
  | append_singleton bs b ih =>
    rw [union_append]
    exact (ih fun c hc => h c (List.mem_append_left _ hc)).merge
      (h b (List.mem_append_right _ List.mem_cons_self))

/-- Where both parts of a merge agree with each other, a binding agrees with the merge exactly if it
agrees with both. -/
theorem agree_merge (hb : b.Proper) (hbc : Agree b c) :
    Agree (merge b c) d ↔ Agree b d ∧ Agree c d := by
  constructor
  · intro h
    refine ⟨fun e he => h e (List.mem_append_left _ he), fun f hf g hg hfg => ?_⟩
    by_cases hn : Assoc.contains f.1 b
    · -- the variable has its value from the first part, and that one equals the value it lost
      obtain ⟨e, he, hef⟩ := List.any_eq_true.mp hn
      have heg : (e.1 == g.1) = true := ((hb.key_isSteady he).congr hef g.1).symm.trans hfg
      have heg' := h e (List.mem_append_left _ he) g hg heg
      exact ((hb.value_isSteady he).congr (hbc e he f hf hef) g.2).trans heg'
    · refine h f (List.mem_append_right _ (List.mem_filter.mpr ⟨hf, by simpa using hn⟩)) g hg hfg
  · rintro ⟨hbd, hcd⟩ e he
    rcases List.mem_append.mp he with he | he
    · exact hbd e he
    · exact hcd e (List.mem_filter.mp he).1

theorem agree_union {bs : List Binding} (hp : ∀ b ∈ bs, b.Proper) (ha : bs.Pairwise Agree) :
    Agree (union bs) d ↔ ∀ b ∈ bs, Agree b d := by
  induction bs using List.reverseRecOn generalizing d with
  | nil => exact iff_of_true nil_agree fun _ h => nomatch h
  | append_singleton bs b ih =>
    obtain ⟨ha, -, hab⟩ := List.pairwise_append.mp ha
    have hp' : ∀ c ∈ bs, c.Proper := fun c hc => hp c (List.mem_append_left _ hc)
    have hb : Agree (union bs) b :=
      (ih hp' ha).mpr fun c hc => hab c hc b List.mem_cons_self
    rw [union_append, agree_merge (.union hp') hb, ih hp' ha, List.forall_mem_append,
      List.forall_mem_singleton]

theorem lookup_merge (hb : b.Proper) (k : Value) :
    Assoc.lookup k (merge b c) = (Assoc.lookup k b).or (Assoc.lookup k c) := by
  rw [merge, Assoc.lookup_append]
  cases hl : Assoc.lookup k b with
  | some v => rfl
  | none =>
    rw [Option.none_or, Option.none_or]
    refine Assoc.lookup_filter fun f _ hf => ?_
    -- a variable left out would be bound in the first part
    rw [Bool.not_eq_true', Assoc.contains_eq_false]
    refine fun e he => Bool.eq_false_iff.mpr fun hef => ?_
    have hek := ((hb.key_isSteady he).congr hef k).symm.trans hf
    have hne := Assoc.lookup_eq_none.mp hl e he
    exact absurd (hne.symm.trans hek) Bool.false_ne_true

/-- A variable has in a union the value of the earliest binding that binds it. -/
theorem lookup_union {bs : List Binding} (hp : ∀ b ∈ bs, b.Proper) (k : Value) :
    Assoc.lookup k (union bs) = bs.findSome? (Assoc.lookup k) := by
  induction bs using List.reverseRecOn with
  | nil => rfl
  | append_singleton bs b ih =>
    have hp' : ∀ c ∈ bs, c.Proper := fun c hc => hp c (List.mem_append_left _ hc)
    rw [union_append, lookup_merge (.union hp'), ih hp', List.findSome?_append,
      List.findSome?_singleton]

end Binding

end RuleEngine
