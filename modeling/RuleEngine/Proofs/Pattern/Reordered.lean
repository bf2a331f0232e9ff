import Mathlib.Data.List.Flatten
import Mathlib.Data.List.Perm.Basic
import RuleEngine.Proofs.Binding.Within
import RuleEngine.Proofs.Pattern.Join

/-!
# Joins in another order

With the facts in another order a join makes the same attempts in another order, pattern after
pattern, and so it finds the same bindings equally often (`joinFrom_perm`, `joinAttempts_perm`).

The order of the patterns is another matter. A join keeps, of several equal values of a variable,
the one it came across first, and it drops a binding as soon as one pattern contradicts it. Both
depend on the order of the patterns. For patterns without guards nothing else does: two patterns in
a row extend a binding by the same pairs of facts in either order, and to bindings that are equal as
maps, since unifying gives least upper bounds (`attempt_comm`). As the patterns after them do not
tell equal bindings apart (`attempt_congr`), the joins in two orders give the same bindings up to
order and equality (`Correspond`).

* `joinFrom_reordered`: one permutation of the patterns.
* `matchAll_perm`: the same of matching, and when matching returns.
-/

namespace RuleEngine

namespace Binding

variable {b b' c d : Binding}

/-- Proper bindings that bind the same variables to equal values. -/
structure Same (b c : Binding) : Prop where
  left : b.Proper
  right : c.Proper
  within : Within b c
  covers : Within c b

theorem Same.refl (hb : b.Proper) : Same b b := ⟨hb, hb, .refl hb, .refl hb⟩

theorem Same.symm (h : Same b c) : Same c b := ⟨h.right, h.left, h.covers, h.within⟩

theorem Same.trans (h : Same b c) (k : Same c d) : Same b d :=
  ⟨h.left, k.right, h.within.trans h.left k.within, k.covers.trans k.right h.covers⟩

theorem Same.eqv (h : Same b c) : (Value.map b == Value.map c) = true :=
  (eqv_iff_within h.left h.right).mpr ⟨h.within, h.covers⟩

theorem Same.merge (h : Same b b') (hc : c.Proper) (hagree : Agree b c) :
    Agree b' c ∧ Same (merge b c) (merge b' c) := by
  have hagree' : Agree b' c := agree_congr h.left h.right hc h.covers hagree
  refine ⟨hagree', h.left.merge hc, h.right.merge hc, ?_, ?_⟩
  · exact merge_congr h.left h.right hc h.within hagree'
  · exact merge_congr h.right h.left hc h.covers hagree

theorem same_merge_merge (hb : b.Proper) (hc : c.Proper) (hd : d.Proper)
    (hbc : Agree b c) (h : Agree (b.merge c) d) :
    Same ((b.merge c).merge d) ((b.merge d).merge c) := by
  obtain ⟨hbd, hdc⟩ := agree_merge_comm hb hc hd hbc h
  refine ⟨(hb.merge hc).merge hd, (hb.merge hd).merge hc, ?_, ?_⟩
  · exact merge_merge_comm hb hd hc hbd hdc
  · exact merge_merge_comm hb hc hd hbc h

/-- Lists of bindings that are the same one by one, once they are brought into one order. -/
def SameUpToOrder (bs cs : List Binding) : Prop :=
  ∃ zs, List.Forall₂ Same bs zs ∧ zs.Perm cs

/-- Lists whose bindings correspond one to one, corresponding ones being equal as maps. -/
def Correspond (bs cs : List Binding) : Prop :=
  ∃ zs, zs.Perm cs ∧
    List.Forall₂ (fun b z => (Value.map b == Value.map z) = true) bs zs

variable {bs cs ds : List Binding}

theorem SameUpToOrder.trans (h : SameUpToOrder bs cs) (k : SameUpToOrder cs ds) :
    SameUpToOrder bs ds := by
  obtain ⟨ys, hys, hperm⟩ := h
  obtain ⟨zs, hzs, hperm'⟩ := k
  obtain ⟨xs, hxs, hperm''⟩ := List.perm_comp_forall₂ hperm hzs
  refine ⟨xs, ?_, hperm''.trans hperm'⟩
  exact forall₂_of_common hys.flip hxs fun _ _ _ h k => h.trans k

theorem SameUpToOrder.length_eq (h : SameUpToOrder bs cs) : bs.length = cs.length := by
  obtain ⟨zs, hzs, hperm⟩ := h
  exact hzs.length_eq.trans hperm.length_eq

theorem SameUpToOrder.correspond (h : SameUpToOrder bs cs) : Correspond bs cs := by
  obtain ⟨zs, hzs, hperm⟩ := h
  exact ⟨zs, hperm, hzs.imp fun _ _ h => h.eqv⟩

end Binding

namespace Pattern

open Binding (Agree Same SameUpToOrder Correspond)

variable {p q : Pattern} {ps qs : List Pattern} {f g : Value} {facts fs gs : List Value}
variable {b b' c d : Binding} {bs bs' cs : List Binding}

/-! ## The facts in another order -/

theorem attempts_perm (hf : fs.Perm gs) (hb : bs.Perm cs) :
    (p.attempts fs bs).Perm (p.attempts gs cs) := by
  unfold attempts
  exact hb.flatMap fun b _ => hf.map _

theorem extend_perm (hf : fs.Perm gs) (hb : bs.Perm cs) : (p.extend fs bs).Perm (p.extend gs cs) :=
  (attempts_perm hf hb).filterMap _

/-- The join over the same facts in another order gives the same bindings equally often. -/
theorem joinFrom_perm (hf : fs.Perm gs) (hb : bs.Perm cs) :
    (joinFrom fs bs ps).Perm (joinFrom gs cs ps) := by
  induction ps generalizing bs cs with
  | nil => exact hb
  | cons p ps ih => exact ih (extend_perm hf hb)

theorem joinAttempts_perm (hf : fs.Perm gs) (hb : bs.Perm cs) :
    (joinAttempts fs bs ps).Perm (joinAttempts gs cs ps) := by
  induction ps generalizing bs cs with
  | nil => exact .refl _
  | cons p ps ih => exact (attempts_perm hf hb).append (ih (extend_perm hf hb))

/-! ## Patterns without guards -/

/-- A pattern without a guard extends a binding with what it finds, if the two agree. -/
theorem attempt_unguarded (hg : p.guard = none) (hb : b.Proper)
    (hf : ∀ c, p.found? f = some c → c.Proper) : (p.attempt f b).binding? = some d ↔
      ∃ c, p.found? f = some c ∧ Agree b c ∧ d = b.merge c := by
  have haccepts : p.Accepts d := fun g h => by
    rw [hg] at h
    cases h
  rw [attempt_binding]
  refine exists_congr fun c => and_congr_right fun hc => ?_
  rw [Binding.unify_eq_some hb (hf c hc), and_iff_left haccepts]

theorem rel_of_some {x y : Option Binding} (h : ∀ d, x = some d → ∃ d', y = some d' ∧ Same d d')
    (k : ∀ d', y = some d' → ∃ d, x = some d) : Option.Rel Same x y := by
  cases hx : x with
  | some d =>
    obtain ⟨d', rfl, hsame⟩ := h d hx
    exact .some hsame
  | none =>
    cases hy : y with
    | none => exact .none
    | some d' =>
      obtain ⟨d, hd⟩ := k d' hy
      rw [hx] at hd
      cases hd

theorem attempt_congr (hg : p.guard = none) (hf : ∀ c, p.found? f = some c → c.Proper)
    (h : Same b b') :
    Option.Rel Same (p.attempt f b).binding? (p.attempt f b').binding? := by
  have hstep {b b' d : Binding} (h : Same b b') (hd : (p.attempt f b).binding? = some d) :
      ∃ d', (p.attempt f b').binding? = some d' ∧ Same d d' := by
    obtain ⟨c, hc, hagree, rfl⟩ := (attempt_unguarded hg h.left hf).mp hd
    obtain ⟨hagree', hsame⟩ := h.merge (hf c hc) hagree
    exact ⟨_, (attempt_unguarded hg h.right hf).mpr ⟨c, hc, hagree', rfl⟩, hsame⟩
  refine rel_of_some (fun d hd => hstep h hd) fun d' hd' => ?_
  obtain ⟨d, hd, -⟩ := hstep h.symm hd'
  exact ⟨d, hd⟩

/-- The binding extended with two patterns on a fact each. -/
def attemptBoth (p q : Pattern) (b : Binding) (f g : Value) : Option Binding :=
  (p.attempt f b).binding?.bind fun d => (q.attempt g d).binding?

/-- Two patterns extend a binding on two facts in either order, or in none. -/
theorem attempt_comm (hp : p.guard = none) (hq : q.guard = none) (hb : b.Proper)
    (hf : ∀ c, p.found? f = some c → c.Proper) (hg : ∀ c, q.found? g = some c → c.Proper) :
    Option.Rel Same (attemptBoth p q b f g) (attemptBoth q p b g f) := by
  have hstep {p q : Pattern} {f g : Value} {d : Binding} (hp : p.guard = none)
      (hq : q.guard = none) (hf : ∀ c, p.found? f = some c → c.Proper)
      (hg : ∀ c, q.found? g = some c → c.Proper) (h : attemptBoth p q b f g = some d) :
      ∃ d', attemptBoth q p b g f = some d' ∧ Same d d' := by
    obtain ⟨m, hm, hd⟩ := Option.bind_eq_some_iff.mp h
    obtain ⟨c, hc, hagree, rfl⟩ := (attempt_unguarded hp hb hf).mp hm
    obtain ⟨c', hc', hagree', rfl⟩ := (attempt_unguarded hq (hb.merge (hf c hc)) hg).mp hd
    obtain ⟨hbc', hc'c⟩ := Binding.agree_merge_comm hb (hf c hc) (hg c' hc') hagree hagree'
    refine ⟨_, ?_, Binding.same_merge_merge hb (hf c hc) (hg c' hc') hagree hagree'⟩
    refine Option.bind_eq_some_iff.mpr ⟨b.merge c', ?_, ?_⟩
    · exact (attempt_unguarded hq hb hg).mpr ⟨c', hc', hbc', rfl⟩
    · exact (attempt_unguarded hp (hb.merge (hg c' hc')) hf).mpr ⟨c, hc, hc'c, rfl⟩
  refine rel_of_some (fun d hd => hstep hp hq hf hg hd) fun d' hd' => ?_
  obtain ⟨d, hd, -⟩ := hstep hq hp hg hf hd'
  exact ⟨d, hd⟩

/-! ## One pattern, and two in either order -/

/-- The pattern has no guard, and all it finds on the facts are proper maps. -/
structure IsPlain (p : Pattern) (facts : List Value) : Prop where
  unguarded : p.guard = none
  proper : ∀ f ∈ facts, ∀ c, p.found? f = some c → c.Proper

theorem IsPlain.extend_proper (hp : p.IsPlain facts) (hbs : ∀ b ∈ bs, b.Proper) :
    ∀ d ∈ p.extend facts bs, d.Proper := by
  intro d hd
  rw [extend_eq_filterMap, List.mem_flatMap] at hd
  obtain ⟨b, hb, hd⟩ := hd
  obtain ⟨f, hf, hd⟩ := List.mem_filterMap.mp hd
  obtain ⟨c, hc, -, rfl⟩ := (attempt_unguarded hp.unguarded (hbs b hb) (hp.proper f hf)).mp hd
  exact (hbs b hb).merge (hp.proper f hf c hc)

/-- Extending same bindings with one pattern gives same bindings, in the same order. -/
theorem IsPlain.extend_congr (hp : p.IsPlain facts) (h : List.Forall₂ Same bs bs') :
    List.Forall₂ Same (p.extend facts bs) (p.extend facts bs') := by
  rw [extend_eq_filterMap, extend_eq_filterMap]
  refine List.rel_flatMap h fun b b' hb => forall₂_filterMap fun f hf => ?_
  exact attempt_congr hp.unguarded (hp.proper f hf) hb

theorem extend_extend : q.extend facts (p.extend facts bs) =
    bs.flatMap fun b => facts.flatMap fun f => facts.filterMap (attemptBoth p q b f) := by
  rw [extend_eq_filterMap, extend_eq_filterMap, List.flatMap_assoc]
  refine List.flatMap_congr fun b _ => ?_
  rw [List.filterMap_eq_flatMap_toList, List.flatMap_assoc]
  refine List.flatMap_congr fun f _ => ?_
  unfold attemptBoth
  cases (p.attempt f b).binding? <;> simp

theorem extend_comm (hp : p.IsPlain facts) (hq : q.IsPlain facts) (hbs : ∀ b ∈ bs, b.Proper) :
    SameUpToOrder (q.extend facts (p.extend facts bs)) (p.extend facts (q.extend facts bs)) := by
  rw [extend_extend, extend_extend]
  refine ⟨bs.flatMap fun b => facts.flatMap fun f => facts.filterMap fun g =>
    attemptBoth q p b g f, ?_, List.Perm.flatMap_left bs fun b _ => ?_⟩
  · refine forall₂_flatMap fun b hb => forall₂_flatMap fun f hf => forall₂_filterMap fun g hg => ?_
    exact attempt_comm hp.unguarded hq.unguarded (hbs b hb) (hp.proper f hf) (hq.proper g hg)
  · exact flatMap_filterMap_perm fun f g => attemptBoth q p b g f

/-! ## Joins -/

/-- All patterns lack guards and find proper maps. -/
abbrev ArePlain (ps : List Pattern) (facts : List Value) : Prop := ∀ p ∈ ps, p.IsPlain facts

theorem joinFrom_congr (hps : ArePlain ps facts) (h : List.Forall₂ Same bs bs') :
    List.Forall₂ Same (joinFrom facts bs ps) (joinFrom facts bs' ps) := by
  induction ps generalizing bs bs' with
  | nil => exact h
  | cons p ps ih =>
    obtain ⟨hp, hps⟩ := List.forall_mem_cons.mp hps
    exact ih hps (hp.extend_congr h)

/-- The same bindings in another order are joined to the same bindings in another order. -/
theorem joinFrom_sameUpToOrder (hps : ArePlain ps facts) (h : SameUpToOrder bs cs) :
    SameUpToOrder (joinFrom facts bs ps) (joinFrom facts cs ps) := by
  obtain ⟨zs, hzs, hperm⟩ := h
  exact ⟨joinFrom facts zs ps, joinFrom_congr hps hzs, joinFrom_perm (.refl _) hperm⟩

theorem joinFrom_reordered (hps : ArePlain ps facts) (h : ps.Perm qs)
    (hbs : ∀ b ∈ bs, b.Proper) : SameUpToOrder (joinFrom facts bs ps) (joinFrom facts bs qs) := by
  induction h generalizing bs with
  | nil => exact ⟨bs, List.forall₂_same.mpr fun b hb => .refl (hbs b hb), .refl _⟩
  | cons p _ ih =>
    obtain ⟨hp, hps⟩ := List.forall_mem_cons.mp hps
    exact ih hps (hp.extend_proper hbs)
  | swap p q ps =>
    obtain ⟨hq, hps⟩ := List.forall_mem_cons.mp hps
    obtain ⟨hp, hps⟩ := List.forall_mem_cons.mp hps
    exact joinFrom_sameUpToOrder hps (extend_comm hq hp hbs)
  | trans hpq _ ih ih' =>
    exact (ih hps hbs).trans (ih' (fun q hq => hps q (hpq.mem_iff.mpr hq)) hbs)

/-! ## Matching -/

/-- Whether all failures of matchers can be logged. -/
def FailsWritably (ps : List Pattern) (facts : List Value) : Prop :=
  ∀ p ∈ ps, ∀ f ∈ facts, ∀ e, p.matcher f = .error e → (f.isOverlong || e.isOverlong) = false

/-- Without guards, matching returns if the failures of matchers can be logged. -/
theorem matchAll_returns (hg : ∀ p ∈ ps, p.guard = none) (hw : FailsWritably ps facts) :
    (matchAll ps facts).value = .ok (join ps facts) := by
  refine matchAll_eq_ok.mpr ⟨fun a ha => Bool.eq_false_iff.mpr fun hover => ?_, rfl⟩
  obtain ⟨i, p, hi, b, -, f, hf, rfl⟩ := mem_joinAttempts.mp ha
  have hp : p ∈ ps := List.mem_of_getElem? hi
  rcases attempt_isUnwritable.mp hover with ⟨e, he, hlong⟩ | ⟨c, d, -, -, hguard⟩
  · rw [hw p hp f hf e he] at hlong
    cases hlong
  · obtain ⟨g, -, hsome, -⟩ := checkGuard_isUnwritable.mp hguard
    rw [hg p hp] at hsome
    cases hsome

/-- For patterns without guards that find proper maps, matching in another order gives bindings that
correspond one to one. It returns in every order if the matchers do, or fail in ways that can be
logged. -/
theorem matchAll_perm (hp : BindsProperly ps facts) (hg : ∀ p ∈ ps, p.guard = none)
    (h : ps.Perm qs) :
    (∀ bs cs, (matchAll ps facts).value = .ok bs → (matchAll qs facts).value = .ok cs →
      bs.length = cs.length ∧ Correspond bs cs) ∧
    (FailsWritably ps facts → (∃ bs, (matchAll ps facts).value = .ok bs) ∧
      ∃ cs, (matchAll qs facts).value = .ok cs) := by
  refine ⟨fun bs cs hbs hcs => ?_,
    fun hw => ⟨⟨_, matchAll_returns hg hw⟩, _, matchAll_returns ?_ ?_⟩⟩
  · obtain ⟨-, rfl⟩ := matchAll_eq_ok.mp hbs
    obtain ⟨-, rfl⟩ := matchAll_eq_ok.mp hcs
    have hplain : ArePlain ps facts := fun p hmem => ⟨hg p hmem, hp p hmem⟩
    have hsame : SameUpToOrder (join ps facts) (join qs facts) :=
      joinFrom_reordered hplain h (List.forall_mem_singleton.mpr .nil)
    exact ⟨hsame.length_eq, hsame.correspond⟩
  · exact fun q hq => hg q (h.mem_iff.mpr hq)
  · exact fun q hq => hw q (h.mem_iff.mpr hq)

def Sample.constant (name : String) (v : Value) : Pattern :=
  ⟨fun _ => .ok (.map [(.text name, v)]), none⟩

/-- A variable bound to the fact, and to `true`: the patterns match on `1` in either order, but one
order binds `1` and the other one `true`. -/
theorem matchAll_perm_mixed :
    BindsProperly [Sample.bind "x", Sample.constant "x" (.bool true)] [.int 1, .int 2] ∧
    (∀ p ∈ [Sample.bind "x", Sample.constant "x" (.bool true)], p.guard = none) ∧
    [Sample.bind "x", Sample.constant "x" (.bool true)].Perm
      [Sample.constant "x" (.bool true), Sample.bind "x"] ∧
    FailsWritably [Sample.bind "x", Sample.constant "x" (.bool true)] [.int 1, .int 2] ∧
    ∃ bs cs, bs = [[(.text "x", .int 1)], [(.text "x", .int 1)]] ∧
      cs = [[(.text "x", .bool true)], [(.text "x", .bool true)]] ∧
      (matchAll [Sample.bind "x", Sample.constant "x" (.bool true)]
        [.int 1, .int 2]).value = .ok bs ∧
      (matchAll [Sample.constant "x" (.bool true), Sample.bind "x"]
        [.int 1, .int 2]).value = .ok cs ∧
      bs.length = cs.length ∧ Correspond bs cs := by
  have hp : BindsProperly [Sample.bind "x", Sample.constant "x" (.bool true)] [.int 1, .int 2] := by
    intro p hp f hf b hb
    have hvalue : ∃ v, b = [(.text "x", v)] ∧ v.Proper := by
      simp only [List.mem_cons, List.not_mem_nil, or_false] at hp hf
      rcases hp with rfl | rfl
      · refine ⟨f, (Option.some.inj hb).symm, ?_⟩
        rcases hf with rfl | rfl <;> exact .atom rfl (by simp)
      · exact ⟨.bool true, (Option.some.inj hb).symm, .atom rfl (by simp)⟩
    obtain ⟨v, rfl, hv⟩ := hvalue
    refine Binding.proper_iff.mpr ⟨?_, ?_, List.pairwise_singleton _ _⟩
    · exact List.forall_mem_singleton.mpr (.atom rfl (by simp))
    · exact List.forall_mem_singleton.mpr hv
  have hg : ∀ p ∈ [Sample.bind "x", Sample.constant "x" (.bool true)], p.guard = none := by
    simp [Sample.bind, Sample.constant]
  have hw : FailsWritably [Sample.bind "x", Sample.constant "x" (.bool true)] [.int 1, .int 2] := by
    intro p hp f _ e he
    simp only [List.mem_cons, List.not_mem_nil, or_false] at hp
    rcases hp with rfl | rfl <;> cases he
  have hperm := List.Perm.swap (Sample.constant "x" (.bool true)) (Sample.bind "x") []
  obtain ⟨hcorrespond, hreturns⟩ := matchAll_perm hp hg hperm
  obtain ⟨⟨bs, hbs⟩, cs, hcs⟩ := hreturns hw
  refine ⟨hp, hg, hperm, hw, bs, cs, ?_, ?_, hbs, hcs, hcorrespond bs cs hbs hcs⟩
  · exact (matchAll_eq_ok.mp hbs).2
  · exact (matchAll_eq_ok.mp hcs).2

end Pattern

end RuleEngine
