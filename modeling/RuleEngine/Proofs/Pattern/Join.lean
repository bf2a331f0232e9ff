import Mathlib.Data.List.TakeDrop
import Mathlib.Data.List.TakeWhile
import RuleEngine.Pattern.Join
import RuleEngine.Proofs.Binding
import RuleEngine.Proofs.Traced

/-!
# What a join gives

The join goes through the patterns and extends every binding found so far with every fact. Its
meaning does not speak of an order of work: patterns match on a tuple of facts (`Pattern.Joins`) if
every matcher binds something on its fact, all of these bindings agree, and every guard accepts
their union up to its own pattern.

The rows of a join are the matching tuples, as positions in the list of facts, with what is bound on
each fact. They come out in lexicographic order, so each tuple comes once (`rows_sorted`), they are
all the matching tuples and no others (`mem_rows`), and the bindings of the join are their unions
(`join_eq_rows`).

A matcher or guard that fails only takes out tuples, except that its failure is logged together with
what it failed on. `Pattern.Jams` is exactly when that cannot be written; matching then fails as a
whole.

* `matchAll_spec`: the bindings a match gives, and when it gives none.
-/

namespace RuleEngine.Pattern

variable {p : Pattern} {ps qs : List Pattern} {f : Value} {facts : List Value}
variable {b c d : Binding} {bs : List Binding}

open Binding (Agree union)

/-- What the matcher binds on a fact, if it gives a map. -/
def found? (p : Pattern) (f : Value) : Option Binding :=
  match p.matcher f with
  | .ok v => v.entries?
  | .error _ => none

/-- The guard, if there is one, does not fail on the binding and is true of it. -/
def Accepts (p : Pattern) (b : Binding) : Prop :=
  ∀ g, p.guard = some g → ∃ v, g b = .ok v ∧ v.truthy = true

/-- The patterns match on the facts, each on its own, and bind `bs` on them. -/
structure Joins (ps : List Pattern) (fs : List Value) (bs : List Binding) : Prop where
  size : fs.length = ps.length
  found : List.zipWith found? ps fs = bs.map some
  agree : bs.Pairwise Agree
  accepts : ∀ (i : Nat) (p : Pattern), ps[i]? = some p → p.Accepts (union (bs.take (i + 1)))

/-- After these bindings the pattern fails on the fact, and what it fails on is too long to be
written. -/
def Overflows (p : Pattern) (bs : List Binding) (f : Value) : Prop :=
  (∃ e, p.matcher f = .error e ∧ (f.isOverlong || e.isOverlong) = true) ∨
  ∃ c g e, p.found? f = some c ∧ (∀ b ∈ bs, Agree b c) ∧ p.guard = some g ∧
    g (union (bs ++ [c])) = .error e ∧
    ((Value.map (union (bs ++ [c]))).isOverlong || e.isOverlong) = true

/-- Some patterns match, and the next one overflows on a fact. -/
def Jams (ps : List Pattern) (facts : List Value) : Prop :=
  ∃ (i : Nat) (p : Pattern), ps[i]? = some p ∧ ∃ fs bs, (∀ x ∈ fs, x ∈ facts) ∧
    Joins (ps.take i) fs bs ∧ ∃ f ∈ facts, p.Overflows bs f

/-- Everything the patterns bind on the facts is a proper map. -/
def BindsProperly (ps : List Pattern) (facts : List Value) : Prop :=
  ∀ p ∈ ps, ∀ f ∈ facts, ∀ b, p.found? f = some b → b.Proper

/-! ## One attempt -/

theorem checkGuard_binding : (p.checkGuard b).binding? = some d ↔ p.Accepts b ∧ b = d := by
  unfold checkGuard Accepts
  cases p.guard with
  | none => simp [Attempt.binding?]
  | some g =>
    simp only [Option.some.injEq, forall_eq']
    cases hg : g b with
    | error e => simp [Attempt.binding?]
    | ok v => cases hv : v.truthy <;> simp [Attempt.binding?, hv]

theorem checkGuard_isUnwritable : (p.checkGuard b).isUnwritable = true ↔
    ∃ g e, p.guard = some g ∧ g b = .error e ∧
      ((Value.map b).isOverlong || e.isOverlong) = true := by
  unfold checkGuard
  cases p.guard with
  | none => simp [Attempt.isUnwritable]
  | some g =>
    simp only [Option.some.injEq, exists_and_left, exists_eq_left']
    cases hg : g b with
    | error e => simp [Attempt.isUnwritable]
    | ok v => cases hv : v.truthy <;> simp [Attempt.isUnwritable, hv]

theorem attempt_binding : (p.attempt f b).binding? = some d ↔
    ∃ c, p.found? f = some c ∧ b.unify c = some d ∧ p.Accepts d := by
  unfold attempt found?
  cases p.matcher f with
  | error e => simp [Attempt.binding?]
  | ok v =>
    cases hv : v.entries? with
    | none => simp [Attempt.binding?, hv]
    | some c =>
      cases hu : b.unify c with
      | none => simp [Attempt.binding?, hv, hu]
      | some m =>
        simp only [hv, hu, checkGuard_binding, Option.some.injEq, exists_eq_left']
        constructor
        · rintro ⟨ha, rfl⟩
          exact ⟨rfl, ha⟩
        · rintro ⟨rfl, ha⟩
          exact ⟨ha, rfl⟩

theorem attempt_matcherFailed {v : Value} {e : Fault} (h : p.attempt f b = .matcherFailed v e) :
    v = f ∧ p.matcher f = .error e := by
  unfold attempt at h
  cases hm : p.matcher f with
  | error e' =>
    rw [hm] at h
    cases h
    exact ⟨rfl, rfl⟩
  | ok w =>
    cases hw : w.entries? with
    | none => simp [hm, hw] at h
    | some c =>
      cases hu : b.unify c with
      | none => simp [hm, hw, hu] at h
      | some d =>
        simp only [hm, hw, hu, checkGuard] at h
        split at h
        · cases h
        · split at h
          · cases h
          · split at h <;> cases h

theorem attempt_guardFailed {e : Fault} (h : p.attempt f b = .guardFailed d e) :
    ∃ c g, p.found? f = some c ∧ b.unify c = some d ∧ p.guard = some g ∧ g d = .error e := by
  unfold attempt at h
  unfold found?
  cases hm : p.matcher f with
  | error e => simp [hm] at h
  | ok v =>
    cases hv : v.entries? with
    | none => simp [hm, hv] at h
    | some c =>
      cases hu : b.unify c with
      | none => simp [hm, hv, hu] at h
      | some m =>
        simp only [hm, hv, hu, checkGuard] at h
        split at h
        · cases h
        · rename_i g hg
          split at h
          · cases h
            exact ⟨c, g, hv, hu, hg, ‹_›⟩
          · split at h <;> cases h

theorem attempt_isUnwritable : (p.attempt f b).isUnwritable = true ↔
    (∃ e, p.matcher f = .error e ∧ (f.isOverlong || e.isOverlong) = true) ∨
    ∃ c d, p.found? f = some c ∧ b.unify c = some d ∧
      (p.checkGuard d).isUnwritable = true := by
  unfold attempt found?
  cases p.matcher f with
  | error e => simp [Attempt.isUnwritable]
  | ok v =>
    cases hv : v.entries? with
    | none => simp [Attempt.isUnwritable, hv]
    | some c => cases hu : b.unify c <;> simp [Attempt.isUnwritable, hv, hu]

/-! ## One attempt after bindings that agree -/

section

variable (hbs : ∀ b ∈ bs, b.Proper) (ha : bs.Pairwise Agree)
  (hf : ∀ c, p.found? f = some c → c.Proper)

include hbs ha

theorem unify_union (hc : c.Proper) :
    (union bs).unify c = some d ↔ (∀ b ∈ bs, Agree b c) ∧ d = union (bs ++ [c]) := by
  rw [Binding.unify_eq_some (.union hbs) hc, Binding.agree_union hbs ha, Binding.union_append]

include hf

theorem attempt_union : (p.attempt f (union bs)).binding? = some d ↔
    ∃ c, p.found? f = some c ∧ (∀ b ∈ bs, Agree b c) ∧ p.Accepts (union (bs ++ [c])) ∧
      d = union (bs ++ [c]) := by
  rw [attempt_binding]
  refine exists_congr fun c => and_congr_right fun hc => ?_
  rw [unify_union hbs ha (hf c hc)]
  constructor
  · rintro ⟨⟨hagree, rfl⟩, hacc⟩
    exact ⟨hagree, hacc, rfl⟩
  · rintro ⟨hagree, hacc, rfl⟩
    exact ⟨⟨hagree, rfl⟩, hacc⟩

theorem attempt_union_isUnwritable :
    (p.attempt f (union bs)).isUnwritable = true ↔ p.Overflows bs f := by
  rw [attempt_isUnwritable, Overflows]
  refine or_congr_right ?_
  constructor
  · rintro ⟨c, d, hc, hu, hw⟩
    obtain ⟨hagree, rfl⟩ := (unify_union hbs ha (hf c hc)).mp hu
    obtain ⟨g, e, hg, he, ho⟩ := checkGuard_isUnwritable.mp hw
    exact ⟨c, g, e, hc, hagree, hg, he, ho⟩
  · rintro ⟨c, g, e, hc, hagree, hg, he, ho⟩
    exact ⟨c, _, hc, (unify_union hbs ha (hf c hc)).mpr ⟨hagree, rfl⟩,
      checkGuard_isUnwritable.mpr ⟨g, e, hg, he, ho⟩⟩

end

/-! ## Matching tuples -/

theorem Joins.nil : Joins [] [] [] := ⟨rfl, rfl, .nil, fun _ _ h => by simp at h⟩

theorem Joins.length {fs : List Value} (h : Joins ps fs bs) : bs.length = ps.length := by
  simpa [h.size] using (congrArg List.length h.found).symm

theorem Joins.proper {fs : List Value} (h : Joins ps fs bs) (hp : BindsProperly ps facts)
    (hfs : ∀ f ∈ fs, f ∈ facts) : ∀ b ∈ bs, b.Proper := by
  intro b hb
  have hz : ((ps.zip fs).map fun x => x.1.found? x.2) = bs.map some :=
    List.map_zip_eq_zipWith.trans h.found
  have hm : some b ∈ (ps.zip fs).map fun x => x.1.found? x.2 := hz ▸ List.mem_map_of_mem hb
  obtain ⟨⟨p, f⟩, hx, hfound⟩ := List.mem_map.mp hm
  obtain ⟨hpm, hfm⟩ := List.of_mem_zip hx
  exact hp p hpm f (hfs f hfm) b hfound

/-- One more pattern matches on one more fact if it binds something there that agrees with all that
was bound before, and its guard accepts the union. -/
theorem joins_append {fs : List Value} : Joins (ps ++ [p]) (fs ++ [f]) (bs ++ [b]) ↔
    Joins ps fs bs ∧ p.found? f = some b ∧ (∀ c ∈ bs, Agree c b) ∧
      p.Accepts (union (bs ++ [b])) := by
  constructor
  · intro h
    have hs : fs.length = ps.length := by simpa using h.size
    have hl : bs.length = ps.length := by simpa using h.length
    obtain ⟨ha, -, hab⟩ := List.pairwise_append.mp h.agree
    have hf := h.found
    rw [List.zipWith_append hs.symm, List.map_append] at hf
    obtain ⟨hf, hfb⟩ := List.append_inj hf (by simp [hs, hl])
    refine ⟨⟨hs, hf, ha, fun i q hq => ?_⟩, by simpa using hfb,
      fun c hc => hab c hc b (by simp), ?_⟩
    · obtain ⟨hi, -⟩ := List.getElem?_eq_some_iff.mp hq
      have := h.accepts i q (by rwa [List.getElem?_append_left hi])
      rwa [List.take_append_of_le_length (by omega)] at this
    · have := h.accepts ps.length p (by simp)
      rwa [List.take_of_length_le (by simp [hl])] at this
  · rintro ⟨h, hfb, hab, hacc⟩
    have hl := h.length
    refine ⟨by simp [h.size], ?_, ?_, fun i q hq => ?_⟩
    · rw [List.zipWith_append h.size.symm, h.found, List.map_append]
      simp [hfb]
    · exact List.pairwise_append.mpr ⟨h.agree, List.pairwise_singleton _ _, by simpa using hab⟩
    · rcases Nat.lt_or_ge i ps.length with hi | hi
      · rw [List.getElem?_append_left hi] at hq
        rw [List.take_append_of_le_length (by omega)]
        exact h.accepts i q hq
      · obtain ⟨hi', hq⟩ := List.getElem?_eq_some_iff.mp hq
        obtain rfl : i = ps.length := by
          simp only [List.length_append, List.length_cons, List.length_nil] at hi'
          omega
        rw [List.take_of_length_le (by simp [hl])]
        simpa [← hq] using hacc

/-- Nothing but patterns and facts of the same number match. -/
theorem Joins.eq_append {gs : List Value} {cs : List Binding} (h : Joins (ps ++ [p]) gs cs) :
    ∃ fs f bs b, gs = fs ++ [f] ∧ cs = bs ++ [b] := by
  have hg : gs ≠ [] := fun hn => by simpa [hn] using h.size
  have hc : cs ≠ [] := fun hn => by simpa [hn] using h.length
  exact ⟨_, _, _, _, (List.dropLast_append_getLast hg).symm, (List.dropLast_append_getLast hc).symm⟩

/-! ## Rows -/

/-- A row of a join: positions of facts, and what is bound on each. -/
abbrev Row (facts : List Value) := List (Fin facts.length) × List Binding

/-- The row with one more fact, if the pattern matches on it. -/
def row? (p : Pattern) (r : Row facts) (i : Fin facts.length) : Option (Row facts) :=
  (p.attempt (facts.get i) (union r.2)).binding?.bind fun _ =>
    (p.found? (facts.get i)).map fun c => (r.1 ++ [i], r.2 ++ [c])

def extendRows (p : Pattern) (rs : List (Row facts)) : List (Row facts) :=
  rs.flatMap fun r => (List.finRange facts.length).filterMap (p.row? r)

def rows (ps : List Pattern) (facts : List Value) : List (Row facts) :=
  ps.foldl (fun rs p => p.extendRows rs) [([], [])]

theorem rows_append : rows (ps ++ [p]) facts = p.extendRows (rows ps facts) := by
  simp [rows]

theorem join_append : join (ps ++ [p]) facts = p.extend facts (join ps facts) := by
  simp [join, joinFrom]

theorem BindsProperly.of_append (h : BindsProperly (ps ++ [p]) facts) :
    BindsProperly ps facts ∧ ∀ f ∈ facts, ∀ b, p.found? f = some b → b.Proper :=
  ⟨fun q hq => h q (List.mem_append_left _ hq), h p (by simp)⟩

theorem Joins.row_proper {r : Row facts} (h : Joins ps (r.1.map facts.get) r.2)
    (hp : BindsProperly ps facts) : ∀ b ∈ r.2, b.Proper := by
  refine h.proper hp fun f hf => ?_
  obtain ⟨j, -, rfl⟩ := List.mem_map.mp hf
  exact List.get_mem _ _

theorem row?_eq_some {r x : Row facts} {i : Fin facts.length}
    (hr : Joins ps (r.1.map facts.get) r.2) (hp : BindsProperly (ps ++ [p]) facts) :
    p.row? r i = some x ↔
      ∃ c, x = (r.1 ++ [i], r.2 ++ [c]) ∧ Joins (ps ++ [p]) (x.1.map facts.get) x.2 := by
  obtain ⟨hps, hpl⟩ := hp.of_append
  simp only [row?, Option.bind_eq_some_iff, Option.map_eq_some_iff,
    attempt_union (hr.row_proper hps) hr.agree (hpl _ (List.get_mem _ i))]
  constructor
  · rintro ⟨_, ⟨c, hc, hab, hacc, -⟩, c', hc', rfl⟩
    obtain rfl : c = c' := Option.some.inj (hc.symm.trans hc')
    refine ⟨c, rfl, ?_⟩
    rw [List.map_append, List.map_singleton]
    exact joins_append.mpr ⟨hr, hc, hab, hacc⟩
  · rintro ⟨c, rfl, h⟩
    rw [List.map_append, List.map_singleton] at h
    obtain ⟨-, hc, hab, hacc⟩ := joins_append.mp h
    exact ⟨_, ⟨c, hc, hab, hacc, rfl⟩, c, hc, rfl⟩

/-- The rows are the matching tuples, with what is bound on them. -/
theorem mem_rows (hp : BindsProperly ps facts) {r : Row facts} :
    r ∈ rows ps facts ↔ Joins ps (r.1.map facts.get) r.2 := by
  induction ps using List.reverseRecOn generalizing r with
  | nil =>
    obtain ⟨is, bs⟩ := r
    constructor
    · intro h
      cases List.mem_singleton.mp h
      exact .nil
    · intro h
      obtain rfl := List.eq_nil_of_length_eq_zero (h.length)
      obtain rfl := List.eq_nil_of_length_eq_zero ((List.length_map _).symm.trans h.size)
      exact List.mem_cons_self
  | append_singleton ps p ih =>
    have hps := hp.of_append.1
    simp only [rows_append, extendRows, List.mem_flatMap, List.mem_filterMap]
    constructor
    · rintro ⟨r', hr', i, -, hx⟩
      obtain ⟨c, rfl, h⟩ := (row?_eq_some ((ih hps).mp hr') hp).mp hx
      exact h
    · intro h
      obtain ⟨is, bs⟩ := r
      obtain ⟨fs, f, bs, b, hfs, rfl⟩ := h.eq_append
      obtain ⟨is, js, rfl, rfl, hj⟩ := List.map_eq_append_iff.mp hfs
      obtain ⟨i, rfl, rfl⟩ := List.map_eq_singleton_iff.mp hj
      have hr : Joins ps (is.map facts.get) bs := by
        rw [List.map_append, List.map_singleton] at h
        exact (joins_append.mp h).1
      refine ⟨(is, bs), (ih hps).mpr hr, i, List.mem_finRange i, ?_⟩
      exact (row?_eq_some hr hp).mpr ⟨b, rfl, h⟩

theorem length_of_mem_rows {r : Row facts} (h : r ∈ rows ps facts) : r.1.length = ps.length := by
  induction ps using List.reverseRecOn generalizing r with
  | nil => simp [List.mem_singleton.mp h]
  | append_singleton ps p ih =>
    simp only [rows_append, extendRows, List.mem_flatMap, List.mem_filterMap, row?,
      Option.bind_eq_some_iff, Option.map_eq_some_iff] at h
    obtain ⟨r', hr', i, -, _, -, c, -, rfl⟩ := h
    simp [ih hr']

/-- Tuples of one length in order stay in order with anything behind them. -/
theorem append_lt_append {n : Nat} {as bs : List (Fin n)} (h : as < bs)
    (hl : as.length = bs.length) (cs ds : List (Fin n)) : as ++ cs < bs ++ ds := by
  induction h with
  | nil => simp at hl
  | rel h => exact .rel h
  | cons _ ih => exact .cons (ih (by simpa using hl))

/-- The rows come in lexicographic order, so no tuple comes twice. -/
theorem rows_sorted : (rows ps facts).Pairwise fun r r' => r.1 < r'.1 := by
  induction ps using List.reverseRecOn with
  | nil => exact List.pairwise_singleton _ _
  | append_singleton ps p ih =>
    rw [rows_append, extendRows, List.pairwise_flatMap]
    refine ⟨fun r _ => ?_, ?_⟩
    · rw [List.pairwise_filterMap]
      refine (List.pairwise_lt_finRange _).imp fun hij x hx y hy => ?_
      simp only [row?, Option.bind_eq_some_iff, Option.map_eq_some_iff] at hx hy
      obtain ⟨_, -, c, -, rfl⟩ := hx
      obtain ⟨_, -, c', -, rfl⟩ := hy
      exact List.append_left_lt (.rel hij)
    · refine ih.imp_of_mem fun hr hr' hlt x hx y hy => ?_
      simp only [List.mem_filterMap, row?, Option.bind_eq_some_iff, Option.map_eq_some_iff] at hx hy
      obtain ⟨i, -, _, -, c, -, rfl⟩ := hx
      obtain ⟨j, -, _, -, c', -, rfl⟩ := hy
      have hl := (length_of_mem_rows hr).trans (length_of_mem_rows hr').symm
      exact append_lt_append hlt hl _ _

theorem row?_union {r : Row facts} {i : Fin facts.length} (hr : Joins ps (r.1.map facts.get) r.2)
    (hp : BindsProperly (ps ++ [p]) facts) :
    (p.row? r i).map (fun x => union x.2) = (p.attempt (facts.get i) (union r.2)).binding? := by
  obtain ⟨hps, hpl⟩ := hp.of_append
  rw [row?]
  cases ha : (p.attempt (facts.get i) (union r.2)).binding? with
  | none => rfl
  | some d =>
    obtain ⟨c, hc, -, -, rfl⟩ :=
      (attempt_union (hr.row_proper hps) hr.agree (hpl _ (List.get_mem _ i))).mp ha
    rw [hc]
    rfl

theorem extend_eq_filterMap {cs : List Binding} : p.extend facts cs =
    cs.flatMap fun b => facts.filterMap fun f => (p.attempt f b).binding? := by
  rw [extend, attempts, List.filterMap_flatMap]
  refine List.flatMap_congr fun b _ => ?_
  rw [List.filterMap_map]
  rfl

theorem extend_eq_flatMap {cs : List Binding} : p.extend facts cs = cs.flatMap fun b =>
    (List.finRange facts.length).filterMap fun i => (p.attempt (facts.get i) b).binding? := by
  rw [extend_eq_filterMap]
  refine List.flatMap_congr fun b _ => ?_
  conv_lhs => rw [← List.map_get_finRange facts, List.filterMap_map]
  rfl

/-- The bindings of a join are the unions along its rows. -/
theorem join_eq_rows (hp : BindsProperly ps facts) :
    join ps facts = (rows ps facts).map fun r => union r.2 := by
  induction ps using List.reverseRecOn with
  | nil => rfl
  | append_singleton ps p ih =>
    have hps := hp.of_append.1
    rw [join_append, rows_append, ih hps, extendRows, extend_eq_flatMap, List.flatMap_map,
      List.map_flatMap]
    refine List.flatMap_congr fun r hr => ?_
    rw [List.map_filterMap]
    exact List.filterMap_congr fun i _ => (row?_union ((mem_rows hps).mp hr) hp).symm

/-! ## Attempts that cannot be logged -/

/-- The attempts of a join are those of each pattern on each fact, after each binding that the
patterns before it give. -/
theorem mem_joinAttempts {a : Attempt} {cs : List Binding} : a ∈ joinAttempts facts cs ps ↔
    ∃ (i : Nat) (p : Pattern), ps[i]? = some p ∧ ∃ b ∈ joinFrom facts cs (ps.take i),
      ∃ f ∈ facts, p.attempt f b = a := by
  induction ps generalizing cs with
  | nil => simp [joinAttempts]
  | cons q ps ih =>
    simp only [joinAttempts, List.mem_append, ih]
    have hq : a ∈ q.attempts facts cs ↔ ∃ b ∈ cs, ∃ f ∈ facts, q.attempt f b = a := by
      simp only [attempts, List.mem_flatMap, List.mem_map]
    rw [hq]
    constructor
    · rintro (h | ⟨i, p, hi, h⟩)
      · exact ⟨0, q, rfl, h⟩
      · exact ⟨i + 1, p, hi, h⟩
    · rintro ⟨i, p, hi, h⟩
      cases i with
      | zero =>
        obtain rfl : q = p := Option.some.inj hi
        exact .inl h
      | succ i => exact .inr ⟨i, p, hi, h⟩

theorem exists_positions {fs : List Value} (h : ∀ f ∈ fs, f ∈ facts) :
    ∃ is : List (Fin facts.length), is.map facts.get = fs := by
  induction fs with
  | nil => exact ⟨[], rfl⟩
  | cons f fs ih =>
    obtain ⟨hf, hfs⟩ := List.forall_mem_cons.mp h
    obtain ⟨i, rfl⟩ := List.mem_iff_get.mp hf
    obtain ⟨is, rfl⟩ := ih hfs
    exact ⟨i :: is, rfl⟩

/-- A join makes an attempt that cannot be logged exactly if it jams. -/
theorem exists_isUnwritable (hp : BindsProperly ps facts) :
    (∃ a ∈ joinAttempts facts [[]] ps, a.isUnwritable = true) ↔ Jams ps facts := by
  simp only [mem_joinAttempts]
  constructor
  · rintro ⟨_, ⟨i, p, hi, b, hb, f, hf, rfl⟩, hw⟩
    have hpi : BindsProperly (ps.take i) facts := fun q hq => hp q (List.mem_of_mem_take hq)
    rw [← join, join_eq_rows hpi] at hb
    obtain ⟨r, hr, rfl⟩ := List.mem_map.mp hb
    have hj := (mem_rows hpi).mp hr
    refine ⟨i, p, hi, _, _, ?_, hj, f, hf, ?_⟩
    · intro x hx
      obtain ⟨j, -, rfl⟩ := List.mem_map.mp hx
      exact List.get_mem _ _
    · exact (attempt_union_isUnwritable (hj.row_proper hpi) hj.agree
        (hp p (List.mem_of_getElem? hi) f hf)).mp hw
  · rintro ⟨i, p, hi, fs, bs, hfs, hj, f, hf, ho⟩
    have hpi : BindsProperly (ps.take i) facts := fun q hq => hp q (List.mem_of_mem_take hq)
    obtain ⟨is, rfl⟩ := exists_positions hfs
    have hb : union bs ∈ join (ps.take i) facts := by
      rw [join_eq_rows hpi]
      exact List.mem_map_of_mem (f := fun r : Row facts => union r.2)
        ((mem_rows (r := (is, bs)) hpi).mpr hj)
    refine ⟨_, ⟨i, p, hi, union bs, hb, f, hf, rfl⟩, ?_⟩
    exact (attempt_union_isUnwritable (hj.proper hpi hfs) hj.agree
      (hp p (List.mem_of_getElem? hi) f hf)).mpr ho

/-! ## What matching gives -/

/-- Matching returns exactly if every failed attempt can be logged; then it gives the join. -/
theorem matchAll_eq_ok : (matchAll ps facts).value = .ok bs ↔
    (∀ a ∈ joinAttempts facts [[]] ps, a.isUnwritable = false) ∧ bs = join ps facts := by
  unfold matchAll
  rw [List.span_eq_takeWhile_dropWhile]
  simp only [Traced.give_bind_value]
  split
  · rename_i h
    simp only [List.isEmpty_iff, List.dropWhile_eq_nil_iff, Bool.not_eq_true'] at h
    rw [Traced.pure_value, Except.ok.injEq]
    exact ⟨fun e => ⟨h, e.symm⟩, fun e => e.2.symm⟩
  · rename_i h
    simp only [List.isEmpty_iff, List.dropWhile_eq_nil_iff, Bool.not_eq_true'] at h
    rw [Traced.ofExcept_value]
    refine ⟨fun e => ?_, fun e => absurd e.1 h⟩
    cases e

/-- Where it does not return, matching fails on something that cannot be written. -/
theorem matchAll_eq_error {e : Error} (h : (matchAll ps facts).value = .error e) :
    e = .fault .unwritableInteger := by
  unfold matchAll at h
  rw [List.span_eq_takeWhile_dropWhile] at h
  simp only [Traced.give_bind_value] at h
  split at h
  · cases h
  · cases h
    rfl

/-- Matching gives the union along every matching tuple of facts, once each and in lexicographic
order, or fails if some pattern fails on something that cannot be written. -/
theorem matchAll_spec (hp : BindsProperly ps facts) :
    ∃ rs : List (List (Fin facts.length) × List Binding),
      (∀ is bs, (is, bs) ∈ rs ↔ Joins ps (is.map facts.get) bs) ∧
      (rs.Pairwise fun r r' => r.1 < r'.1) ∧
      (∀ r ∈ rs, ∀ k, Assoc.lookup k (union r.2) = r.2.findSome? (Assoc.lookup k)) ∧
      (¬ Jams ps facts → (matchAll ps facts).value = .ok (rs.map fun r => union r.2)) ∧
      (Jams ps facts → (matchAll ps facts).value = .error (.fault .unwritableInteger)) := by
  refine ⟨rows ps facts, fun is bs => mem_rows hp, rows_sorted, fun r hr k => ?_, ?_, ?_⟩
  · exact Binding.lookup_union (((mem_rows hp).mp hr).row_proper hp) k
  · intro hj
    refine matchAll_eq_ok.mpr
      ⟨fun a ha => Bool.eq_false_iff.mpr fun hw => ?_, (join_eq_rows hp).symm⟩
    exact hj ((exists_isUnwritable hp).mp ⟨a, ha, hw⟩)
  · intro hj
    obtain ⟨a, ha, hw⟩ := (exists_isUnwritable hp).mpr hj
    cases hv : (matchAll ps facts).value with
    | error e => rw [matchAll_eq_error hv]
    | ok cs =>
      rw [(matchAll_eq_ok.mp hv).1 a ha] at hw
      cases hw

def Sample.bind (name : String) : Pattern := ⟨fun f => .ok (.map [(.text name, f)]), none⟩

def Sample.refuse : Pattern := ⟨fun _ => .error (.raised "ValueError" [.text "no"]), none⟩

/-- A variable bound twice to one of `1`, `true` and `2`: numbers and truth values that are equal
match, and the value that was bound first stays. -/
theorem matchAll_spec_mixed :
    BindsProperly [Sample.bind "x", Sample.bind "x"] [.int 1, .bool true, .int 2] ∧
    ∃ rs : List (List (Fin 3) × List Binding),
      (∀ is bs, (is, bs) ∈ rs ↔ Joins [Sample.bind "x", Sample.bind "x"]
        (is.map [.int 1, .bool true, .int 2].get) bs) ∧
      (rs.Pairwise fun r r' => r.1 < r'.1) ∧
      (rs.map fun r => union r.2) = [.int 1, .int 1, .bool true, .bool true, .int 2].map
        fun v => [(.text "x", v)] := by
  have hp : BindsProperly [Sample.bind "x", Sample.bind "x"] [.int 1, .bool true, .int 2] := by
    intro p hp f hf b hb
    obtain rfl : p = Sample.bind "x" := by simpa using hp
    obtain rfl : b = [(.text "x", f)] := (Option.some.inj hb).symm
    refine Binding.proper_iff.mpr ⟨?_, ?_, List.pairwise_singleton _ _⟩
    · rw [List.forall_mem_singleton]
      exact .atom rfl (by simp)
    · rw [List.forall_mem_singleton]
      simp only [List.mem_cons, List.not_mem_nil, or_false] at hf
      rcases hf with rfl | rfl | rfl <;> exact .atom rfl (by simp)
  refine ⟨hp, ?_⟩
  obtain ⟨rs, hmem, hlex, -, hok, -⟩ := matchAll_spec hp
  have hj : ¬ Jams [Sample.bind "x", Sample.bind "x"] [.int 1, .bool true, .int 2] := by
    rw [← exists_isUnwritable hp]
    decide
  exact ⟨rs, hmem, hlex, (Except.ok.inj (hok hj)).symm⟩

/-- A pattern that fails on a number with 4301 digits matches on no facts, but matching does not
give the empty list: the number cannot be written to the log, and matching fails. -/
theorem matchAll_overlong : BindsProperly [Sample.refuse] [.int Value.writtenBound] ∧
    (∀ fs bs, ¬ Joins [Sample.refuse] fs bs) ∧
    (matchAll [Sample.refuse] [.int Value.writtenBound]).value =
      .error (.fault .unwritableInteger) := by
  refine ⟨?_, fun fs bs h => ?_, ?_⟩
  · intro p hp f _ b hb
    obtain rfl : p = Sample.refuse := by simpa using hp
    cases hb
  · obtain ⟨f, rfl⟩ := List.length_eq_one_iff.mp h.size
    obtain ⟨b, rfl⟩ := List.length_eq_one_iff.mp h.length
    simpa [Sample.refuse, found?] using h.found
  · cases hv : (matchAll [Sample.refuse] [.int Value.writtenBound]).value with
    | error e => rw [matchAll_eq_error hv]
    | ok cs =>
      have hw := (matchAll_eq_ok.mp hv).1 (Sample.refuse.attempt (.int Value.writtenBound) [])
        List.mem_cons_self
      have ho : Value.isOverlong (.int Value.writtenBound) = true := by decide +kernel
      simp only [attempt, Sample.refuse, Attempt.isUnwritable, ho, Bool.true_or] at hw
      cases hw

end RuleEngine.Pattern
