import Mathlib.Data.List.Perm.Basic
import RuleEngine.Proofs.Document.Safety
import RuleEngine.Proofs.Value.Overlong

/-!
# Conditions moved to later patterns

The conditions of a declared pattern are asked as soon as the pattern has matched, in order and only
up to the first that does not hold. They might as well be asked later, and in any order: a variable
that is bound keeps its value while the join goes on, so its conditions filter the bindings found so
far, and filtering them before a pattern is filtering them after it (`Pattern.extend_carried`). A
condition that fails takes out what a false one takes out.

What is not the same is whether a failure is met at all. Failures are logged, and one that cannot be
written ends the match (`compile_redistributed_overlong`).

* `PatternSpec.Redistributed`: each atom stays on its pattern or moves to a later one.
* `RuleSpec.compile_redistributed`: the rule compiles too, and matches under the same bindings.
-/

namespace RuleEngine

variable {b d : Binding} {facts : List Value} {bs : List Binding} {cs : List Condition}
variable {m : Matcher}

/-! ## Filters and extensions -/

namespace Pattern

theorem accepts_guard? :
    (⟨m, Condition.guard? cs⟩ : Pattern).Accepts b ↔ cs.all (Condition.met b) = true := by
  rw [← Condition.allHold_eq_true]
  unfold Accepts Condition.guard?
  cases cs with
  | nil => simp [Condition.allHold]
  | cons c cs =>
    simp only [List.isEmpty_cons, Bool.false_eq_true, if_false, Option.some.injEq, forall_eq',
      map_eq_ok]
    constructor
    · rintro ⟨_, ⟨a, ha, rfl⟩, htrue⟩
      rw [ha]
      exact congrArg _ htrue
    · intro h
      exact ⟨.bool true, ⟨true, h, rfl⟩, rfl⟩

theorem attempt_guard? {f : Value} : ((⟨m, Condition.guard? cs⟩ : Pattern).attempt f b).binding? =
    ((⟨m, none⟩ : Pattern).attempt f b).binding?.filter fun d => cs.all (Condition.met d) := by
  refine Option.ext fun d => ?_
  have hnone : (⟨m, none⟩ : Pattern).Accepts d := nofun
  rw [Option.filter_eq_some_iff, attempt_binding, attempt_binding]
  simp only [accepts_guard?, iff_true_intro hnone, and_true]
  constructor
  · rintro ⟨c, hc, hu, hmet⟩
    exact ⟨⟨c, hc, hu⟩, hmet⟩
  · rintro ⟨⟨c, hc, hu⟩, hmet⟩
    exact ⟨c, hc, hu, hmet⟩

/-- A guard of conditions filters what the pattern gives without it. -/
theorem extend_guard? : (⟨m, Condition.guard? cs⟩ : Pattern).extend facts bs =
    ((⟨m, none⟩ : Pattern).extend facts bs).filter fun d => cs.all (Condition.met d) := by
  rw [extend_eq_filterMap, extend_eq_filterMap, List.filter_flatMap]
  refine List.flatMap_congr fun b _ => ?_
  rw [List.filter_filterMap]
  exact List.filterMap_congr fun f _ => attempt_guard?

/-- What is made of the items that pass passes, and the rest does not, so it can be filtered
afterwards. -/
theorem filter_flatMap_of_eq {α β : Type} {xs : List α} {u : α → List β} {p : α → Bool}
    {q : β → Bool} (h : ∀ x ∈ xs, ∀ y ∈ u x, q y = p x) :
    (xs.flatMap u).filter q = (xs.filter p).flatMap u := by
  induction xs with
  | nil => rfl
  | cons x xs ih =>
    obtain ⟨hx, hxs⟩ := List.forall_mem_cons.mp h
    rw [List.flatMap_cons, List.filter_append, ih hxs, List.filter_cons]
    cases hp : p x with
    | true =>
      rw [if_pos rfl, List.flatMap_cons, List.filter_eq_self.mpr fun y hy => (hx y hy).trans hp]
    | false =>
      have hnone : (u x).filter q = [] :=
        List.filter_eq_nil_iff.mpr fun y hy => by simp [(hx y hy).trans hp]
      rw [hnone, List.nil_append, if_neg Bool.false_ne_true]

/-- Conditions on variables that are bound before a pattern can be asked before it or after it: a
variable that is bound keeps its value. -/
theorem extend_filter (h : ∀ b ∈ bs, ∀ c ∈ cs, ∀ x ∈ c.variableNames, b.Binds x) :
    (⟨m, none⟩ : Pattern).extend facts (bs.filter fun b => cs.all (Condition.met b)) =
      ((⟨m, none⟩ : Pattern).extend facts bs).filter fun d => cs.all (Condition.met d) := by
  rw [extend_eq_filterMap, extend_eq_filterMap]
  refine (filter_flatMap_of_eq fun b hb d hd => ?_).symm
  obtain ⟨f, -, hd⟩ := List.mem_filterMap.mp hd
  obtain ⟨c, -, hu, -⟩ := attempt_binding.mp hd
  rw [Bool.eq_iff_iff, List.all_eq_true, List.all_eq_true]
  refine forall₂_congr fun c hc => ?_
  rw [Condition.met_congr fun x hx => Binding.read_unify hu (h b hb c hc x hx)]

/-- One pattern on the way of conditions: those that were carried on to it and its own ones are
asked there and left to be asked later, or the other way round. -/
theorem extend_carried {carried own kept carried' : List Condition}
    (hperm : (kept ++ carried').Perm (carried ++ own))
    (h : ∀ b ∈ bs, ∀ c ∈ carried, ∀ x ∈ c.variableNames, b.Binds x) :
    (⟨m, Condition.guard? own⟩ : Pattern).extend facts
        (bs.filter fun b => carried.all (Condition.met b)) =
      ((⟨m, Condition.guard? kept⟩ : Pattern).extend facts bs).filter
        fun d => carried'.all (Condition.met d) := by
  rw [extend_guard?, extend_filter h, extend_guard?, List.filter_filter, List.filter_filter]
  refine List.filter_congr fun d _ => ?_
  rw [Bool.and_comm, Bool.and_comm (carried'.all _), ← List.all_append, ← List.all_append,
    Bool.eq_iff_iff, List.all_eq_true, List.all_eq_true]
  exact forall_congr' fun c => imp_congr hperm.mem_iff.symm .rfl

/-! ## Attempts that can be logged -/

/-- No fact holds a number too long to be written, and nothing the patterns find on one does. -/
def FindWritable (ps : List Pattern) (facts : List Value) : Prop := ∀ f ∈ facts,
  f.isOverlong = false ∧ ∀ p ∈ ps, ∀ c, p.found? f = some c → (Value.map c).isOverlong = false

variable {ps qs : List Pattern}

theorem FindWritable.of_matchers (h : List.Forall₂ (fun p q => q.matcher = p.matcher) ps qs)
    (hw : FindWritable ps facts) : FindWritable qs facts := by
  intro f hf
  refine ⟨(hw f hf).1, fun q hq c hc => ?_⟩
  obtain ⟨p, hp, hpq⟩ := exists_of_forall₂ h.flip hq
  refine (hw f hf).2 p hp c ?_
  rw [← hc, found?, found?, hpq]

theorem unify_isOverlong {c : Binding} (h : b.unify c = some d)
    (hb : (Value.map b).isOverlong = false) (hc : (Value.map c).isOverlong = false) :
    (Value.map d).isOverlong = false := by
  obtain ⟨e, rfl, hsub⟩ := Binding.unify_append h
  rw [Value.isOverlong, Value.isOverlongEntry_eq_false] at hb hc ⊢
  exact List.forall_mem_append.mpr ⟨hb, fun x hx => hc x (hsub hx)⟩

theorem joinFrom_isOverlong (hw : FindWritable ps facts)
    (hbs : ∀ b ∈ bs, (Value.map b).isOverlong = false) :
    ∀ d ∈ joinFrom facts bs ps, (Value.map d).isOverlong = false := by
  induction ps generalizing bs with
  | nil => exact hbs
  | cons p ps ih =>
    refine ih (fun f hf => ⟨(hw f hf).1, fun q hq => (hw f hf).2 q (List.mem_cons_of_mem _ hq)⟩) ?_
    intro d hd
    dsimp only at hd
    rw [extend_eq_filterMap, List.mem_flatMap] at hd
    obtain ⟨b, hb, hd⟩ := hd
    obtain ⟨f, hf, hd⟩ := List.mem_filterMap.mp hd
    obtain ⟨c, hc, hu, -⟩ := attempt_binding.mp hd
    exact unify_isOverlong hu (hbs b hb) ((hw f hf).2 p List.mem_cons_self c hc)

end Pattern

/-! ## Conditions carried on -/

/-- The conditions written by these atoms. -/
def Reads (atoms : List (List Value)) (cs : List Condition) : Prop :=
  List.Forall₂ (fun atom c => Condition.ofValue (.list atom) = .ok c) atoms cs

theorem Reads.of_append {as bs : List (List Value)} (h : Reads (as ++ bs) cs) :
    ∃ ds es, Reads as ds ∧ Reads bs es ∧ cs = ds ++ es := by
  have htake := List.forall₂_take as.length h
  have hdrop := List.forall₂_drop as.length h
  rw [List.take_left] at htake
  rw [List.drop_left] at hdrop
  exact ⟨_, _, htake, hdrop, (List.take_append_drop _ _).symm⟩

/-- Atoms in another order write the same conditions in another order. -/
theorem Reads.of_perm {as bs : List (List Value)} (h : Reads as cs) (hperm : bs.Perm as) :
    ∃ ds, Reads bs ds ∧ ds.Perm cs :=
  List.perm_comp_forall₂ hperm h

namespace PatternSpec

variable {rule : String} {i : Nat} {bound : List String} {carried : List (List Value)}
variable {p : PatternSpec} {ps qs : List PatternSpec} {us : List Pattern}

theorem readConditions_eq_ok : p.readConditions = .ok cs ↔ Reads p.conditions cs := by
  rw [readConditions, Condition.ofValues, mapM_eq_ok, List.forall₂_map_left_iff, Reads]

/-- Patterns with the atoms of others, where each atom stays on its pattern or moves to a later one.
At a pattern, the atoms carried on from before and its own ones are split into those it keeps, in
any order, and those that are carried on. -/
inductive Redistributed :
    List (List Value) → List PatternSpec → List PatternSpec → Prop where
  | nil : Redistributed [] [] []
  | cons {carried carried' kept : List (List Value)} {p : PatternSpec} {ps qs : List PatternSpec}
      (split : (carried ++ p.conditions).Perm (kept ++ carried'))
      (rest : Redistributed carried' ps qs) :
      Redistributed carried (p :: ps) ({ p with conditions := kept } :: qs)

/-- A pattern compiles with the atoms it keeps of its own and of those carried on to it. Its matcher
is the same, and between what it asks and what is carried on from it no condition is lost. -/
theorem compile_split {carried' kept : List (List Value)} {u : Pattern} (hcs : Reads carried cs)
    (hbound : ∀ c ∈ cs, ∀ x ∈ c.variableNames, x ∈ bound)
    (split : (carried ++ p.conditions).Perm (kept ++ carried'))
    (hu : p.compile rule i bound = .ok u) :
    ∃ m own ks cs', u = ⟨m, Condition.guard? own⟩ ∧ (ks ++ cs').Perm (cs ++ own) ∧
      { p with conditions := kept }.compile rule i bound = .ok ⟨m, Condition.guard? ks⟩ ∧
      Reads carried' cs' ∧ ∀ c ∈ cs', ∀ x ∈ c.variableNames, x ∈ bound ++ p.variableNames := by
  obtain ⟨own, m, hown, hasked, hm, rfl⟩ := compile_iff.mp hu
  -- the conditions written by the atoms kept here, and by those that are carried on
  obtain ⟨zs, hzs, hperm⟩ :=
    Reads.of_perm (List.rel_append hcs (readConditions_eq_ok.mp hown)) split.symm
  obtain ⟨ks, cs', hks, hcs', rfl⟩ := Reads.of_append hzs
  have hall : ∀ c ∈ ks ++ cs', ∀ x ∈ c.variableNames, x ∈ bound ++ p.variableNames := by
    intro c hc x hx
    rcases List.mem_append.mp (hperm.mem_iff.mp hc) with hc | hc
    · exact List.mem_append_left _ (hbound c hc x hx)
    · exact hasked c hc x hx
  obtain ⟨hkept, hcarried⟩ := List.forall_mem_append.mp hall
  exact ⟨m, own, ks, cs', rfl, hperm,
    compile_iff.mpr ⟨ks, m, readConditions_eq_ok.mpr hks, hkept, hm, rfl⟩, hcs', hcarried⟩

/-- Patterns that compile still do with the atoms redistributed, those carried on from before among
them. Joined to bindings of what was bound before, they give what the patterns as they were give on
the bindings that meet the conditions carried on. -/
theorem Redistributed.compiles (h : Redistributed carried ps qs) (hps : ∀ p ∈ ps, p.WellFormed)
    (hcs : Reads carried cs) (hbound : ∀ c ∈ cs, ∀ x ∈ c.variableNames, x ∈ bound)
    (hcompile : compileFrom rule i bound ps = .ok us) :
    ∃ vs, compileFrom rule i bound qs = .ok vs ∧
      List.Forall₂ (fun u v => v.matcher = u.matcher) us vs ∧
      ∀ facts bs, (∀ b ∈ bs, ∀ x ∈ bound, b.Binds x) →
        Pattern.joinFrom facts (bs.filter fun b => cs.all (Condition.met b)) us =
          Pattern.joinFrom facts bs vs := by
  induction h generalizing cs i bound us with
  | nil =>
    cases hcompile
    cases hcs
    refine ⟨[], rfl, .nil, fun facts bs _ => ?_⟩
    simp [Pattern.joinFrom]
  | @cons carried carried' kept p ps qs split _ ih =>
    obtain ⟨hp, hps⟩ := List.forall_mem_cons.mp hps
    obtain ⟨u, us, hu, hus, rfl⟩ := compileFrom_cons hcompile
    obtain ⟨m, own, ks, cs', rfl, hperm, hv, hcs', hbound'⟩ := compile_split hcs hbound split hu
    obtain ⟨vs, hvs, hmatchers, hjoin⟩ := ih hps hcs' hbound' hus
    refine ⟨⟨m, Condition.guard? ks⟩ :: vs, ?_, .cons rfl hmatchers, fun facts bs hbs => ?_⟩
    · rw [compileFrom, hv]
      change (compileFrom rule (i + 1) (bound ++ p.variableNames) _ >>= fun vs =>
        pure (_ :: vs)) = _
      rw [hvs]
      rfl
    · change Pattern.joinFrom facts (Pattern.extend _ facts (bs.filter _)) us = _
      rw [Pattern.extend_carried hperm fun b hb c hc x hx => hbs b hb x (hbound c hc x hx)]
      exact hjoin facts _ (extend_binds (p := { p with conditions := kept }) hp hv hbs)

theorem Redistributed.variableNames_eq (h : Redistributed carried ps qs) :
    qs.flatMap variableNames = ps.flatMap variableNames := by
  induction h with
  | nil => rfl
  | cons _ _ ih =>
    rw [List.flatMap_cons, List.flatMap_cons, ih]
    rfl

theorem Redistributed.wellFormed (h : Redistributed carried ps qs)
    (hps : ∀ p ∈ ps, p.WellFormed) : ∀ q ∈ qs, q.WellFormed := by
  induction h with
  | nil => exact hps
  | cons _ _ ih =>
    obtain ⟨hp, hps⟩ := List.forall_mem_cons.mp hps
    exact List.forall_mem_cons.mpr ⟨hp, ih hps⟩

end PatternSpec

namespace Rule

theorem make_patterns {name salience once mode throttle : Value} {ps qs : List Pattern}
    {act : Action} {r : Rule} (hsize : ps.length = qs.length)
    (h : make name (ps.map .fit) (.fit act) salience once mode throttle = .ok r) :
    ∃ r', make name (qs.map .fit) (.fit act) salience once mode throttle = .ok r' ∧
      r'.patterns = qs := by
  unfold make at h ⊢
  rw [checkPatterns_fit] at h ⊢
  split at h
  · cases h
  · rename_i n hn
    split at h
    · cases h
    · rename_i hname
      rw [dif_neg hname]
      cases ps with
      | nil => cases h
      | cons p ps =>
        cases qs with
        | nil => cases hsize
        | cons q qs =>
          cases hs : salience? salience with
          | none =>
            rw [hs] at h
            cases h
          | some w =>
            rw [hs] at h
            dsimp only at h ⊢
            split at h
            · cases h
            · exact ⟨_, rfl, rfl⟩

end Rule

namespace RuleSpec

variable {spec : RuleSpec} {r : Rule} {qs : List PatternSpec}

/-- A declared rule can be matched wherever everything it comes across can be written: its matchers
and guards fail on faults that show no value. -/
theorem matchAll_returns (hw : spec.WellFormed) (h : spec.compile = .ok r)
    (hfind : Pattern.FindWritable r.patterns facts) :
    (Pattern.matchAll r.patterns facts).value = .ok (r.bindings facts) := by
  refine Pattern.matchAll_eq_ok.mpr ⟨fun a ha => ?_, rfl⟩
  obtain ⟨-, -, hpatterns, -⟩ := compile_eq_ok h
  obtain ⟨hmatcher, hguard⟩ :=
    PatternSpec.compileFrom_failsBare hw.patterns hpatterns (by simp) a ha
  obtain ⟨i, p, hp, b, hb, f, hf, hattempt⟩ := Pattern.mem_joinAttempts.mp ha
  have htaken : Pattern.FindWritable (r.patterns.take i) facts := fun f hf =>
    ⟨(hfind f hf).1, fun q hq => (hfind f hf).2 q (List.mem_of_mem_take hq)⟩
  have hshort := Pattern.joinFrom_isOverlong htaken (List.forall_mem_singleton.mpr rfl) b hb
  cases a with
  | matched | unmatched => rfl
  | matcherFailed v e =>
    obtain ⟨rfl, -⟩ := Pattern.attempt_matcherFailed hattempt
    rw [Attempt.isUnwritable, (hfind v hf).1, (hmatcher v e rfl).isOverlong, Bool.or_false]
  | guardFailed d e =>
    obtain ⟨c, g, hfound, hunify, -, -⟩ := Pattern.attempt_guardFailed hattempt
    have hd := Pattern.unify_isOverlong hunify hshort
      ((hfind f hf).2 p (List.mem_of_getElem? hp) c hfound)
    rw [Attempt.isUnwritable, hd, (hguard d e rfl).isOverlong, Bool.or_false]

/-- The rule that is declared with the atoms of its patterns redistributed compiles too. Its
patterns have the same matchers, and they match under the same bindings in the same order. -/
theorem redistributed_compiles (hw : spec.WellFormed) (h : spec.compile = .ok r)
    (hqs : PatternSpec.Redistributed [] spec.patterns qs) :
    ∃ r', { spec with patterns := qs }.compile = .ok r' ∧
      List.Forall₂ (fun p q => q.matcher = p.matcher) r.patterns r'.patterns ∧
      ∀ facts, r'.bindings facts = r.bindings facts := by
  unfold compile at h
  obtain ⟨us, hus, h⟩ := bind_eq_ok.mp h
  obtain ⟨asked, hasked, h⟩ := bind_eq_ok.mp h
  obtain ⟨vs, hvs, hmatchers, hjoin⟩ := hqs.compiles hw.patterns .nil nofun hus
  dsimp only at h
  split at h
  · rename_i hbound
    have hmake := mapError_eq_ok.mp h
    obtain ⟨-, rfl, -⟩ := Rule.make_eq_ok hmake
    obtain ⟨r', hr', rfl⟩ := Rule.make_patterns hmatchers.length_eq hmake
    refine ⟨r', ?_, hmatchers, fun facts => (hjoin facts [[]] (by simp)).symm⟩
    have hnames : ({ spec with patterns := qs } : RuleSpec).variableNames = spec.variableNames :=
      hqs.variableNames_eq
    unfold compile
    refine bind_eq_ok.mpr ⟨_, hvs, bind_eq_ok.mpr ⟨asked, hasked, ?_⟩⟩
    dsimp only
    rw [hnames, if_pos hbound]
    exact mapError_eq_ok.mpr hr'
  · cases h

/-- The rule that is declared with the atoms of its patterns redistributed compiles too. Over any
facts the two rules match under the same bindings in the same order. Matching either one gives them,
unless something it came across is too long to be written. -/
theorem compile_redistributed (hw : spec.WellFormed) (h : spec.compile = .ok r)
    (hqs : PatternSpec.Redistributed [] spec.patterns qs) :
    ∃ r', { spec with patterns := qs }.compile = .ok r' ∧ ∀ facts,
      r'.bindings facts = r.bindings facts ∧
      (∀ q ∈ [r, r'], (Pattern.matchAll q.patterns facts).value = .ok (r.bindings facts) ∨
        (Pattern.matchAll q.patterns facts).value = .error (.fault .unwritableInteger)) ∧
      (Pattern.FindWritable r.patterns facts → ∀ q ∈ [r, r'],
        (Pattern.matchAll q.patterns facts).value = .ok (r.bindings facts)) := by
  obtain ⟨r', hr', hmatchers, hsame⟩ := redistributed_compiles hw h hqs
  refine ⟨r', hr', fun facts => ⟨hsame facts, fun q hq => ?_, fun hfind => ?_⟩⟩
  · have hq' : q.bindings facts = r.bindings facts := by
      rcases List.mem_pair.mp hq with rfl | rfl
      · rfl
      · exact hsame facts
    cases hv : (Pattern.matchAll q.patterns facts).value with
    | ok bs =>
      rw [← hq']
      exact .inl (congrArg _ (Pattern.matchAll_eq_ok.mp hv).2)
    | error e => exact .inr (congrArg _ (Pattern.matchAll_eq_error hv))
  · have hw' : ({ spec with patterns := qs } : RuleSpec).WellFormed :=
      ⟨hqs.wellFormed hw.patterns, hw.effects⟩
    have hreturns := matchAll_returns hw' hr' (hfind.of_matchers hmatchers)
    rw [hsame facts] at hreturns
    intro q hq
    rcases List.mem_pair.mp hq with rfl | rfl
    · exact matchAll_returns hw h hfind
    · exact hreturns

namespace Sample

def order (atoms : List (List Value)) : PatternSpec :=
  ⟨some "order", [(.text "id", .text "$id"), (.text "total", .text "$total")], atoms, none⟩

def badge (atoms : List (List Value)) : PatternSpec :=
  ⟨some "badge", [(.text "id", .text "$badge")], atoms, none⟩

def quiet (ps : List PatternSpec) : RuleSpec := ⟨"quiet", ps, [], 0, false, none, .none⟩

def large : List Value := [.text "gt", .text "$total", .int 10]

def single : List Value := [.text "eq", .text "$total", .int 1]

def own : List Value := [.text "eq", .text "$badge", .text "$id"]

def ordered (id : Int) (total : Value) : Value :=
  .map [(.text "kind", .text "order"), (.text "id", .int id), (.text "total", total)]

/-- Two orders, one of which has no number for its total, and the badges of both. -/
def desk : List Value := [ordered 1 (.int 20), ordered 2 (.text "much"),
  .map [(.text "kind", .text "badge"), (.text "id", .int 1)],
  .map [(.text "kind", .text "badge"), (.text "id", .int 2)]]

theorem quiet_wellFormed {ps : List PatternSpec} (h : ∀ p ∈ ps, ∃ as, p = order as ∨ p = badge as) :
    (quiet ps).WellFormed := by
  refine ⟨fun p hp e he => ?_, nofun⟩
  obtain ⟨as, rfl | rfl⟩ := h p hp
  all_goals
    simp only [order, badge, List.mem_cons, List.not_mem_nil, or_false] at he
    rcases he with rfl | rfl <;> exact Value.wellFormed_text _

end Sample

/-- How many bindings the declared rule matches under, if it compiles and matching returns. -/
def Sample.matches (spec : RuleSpec) (facts : List Value) : Option (Option Nat) :=
  (spec.compile.map fun r =>
    ((Pattern.matchAll r.patterns facts).value.map List.length).toOption).toOption

theorem Sample.matches_eq_some {n : Nat} (h : Sample.matches spec facts = some (some n)) :
    ∃ r bs, spec.compile = .ok r ∧ (Pattern.matchAll r.patterns facts).value = .ok bs ∧
      bs.length = n := by
  obtain ⟨r, hr, hmatch⟩ := map_eq_ok.mp (toOption_eq_some.mp h)
  obtain ⟨bs, hbs, hlength⟩ := map_eq_ok.mp (toOption_eq_some.mp hmatch)
  exact ⟨r, bs, hr, hbs, hlength⟩

/-- An order of more than ten and its badge. The other order has a total that cannot be compared,
and it makes no difference whether that is found when the order is read or when a badge is. -/
theorem compile_redistributed_order :
    (Sample.quiet [Sample.order [Sample.large], Sample.badge [Sample.own]]).WellFormed ∧
    PatternSpec.Redistributed [] [Sample.order [Sample.large], Sample.badge [Sample.own]]
      [Sample.order [], Sample.badge [Sample.own, Sample.large]] ∧
    ∃ r r' b,
      (Sample.quiet [Sample.order [Sample.large], Sample.badge [Sample.own]]).compile = .ok r ∧
      (Sample.quiet [Sample.order [], Sample.badge [Sample.own, Sample.large]]).compile = .ok r' ∧
      (Pattern.matchAll r.patterns Sample.desk).value = .ok [b] ∧
      (Pattern.matchAll r'.patterns Sample.desk).value = .ok [b] := by
  have hw : (Sample.quiet [Sample.order [Sample.large], Sample.badge [Sample.own]]).WellFormed :=
    Sample.quiet_wellFormed fun p hp => by
      rcases List.mem_pair.mp hp with rfl | rfl
      · exact ⟨_, .inl rfl⟩
      · exact ⟨_, .inr rfl⟩
  have hqs : PatternSpec.Redistributed [] [Sample.order [Sample.large], Sample.badge [Sample.own]]
      [Sample.order [], Sample.badge [Sample.own, Sample.large]] :=
    .cons (List.Perm.refl [Sample.large]) (.cons (.swap _ _ _) .nil)
  have hd : Sample.matches (Sample.quiet [Sample.order [Sample.large], Sample.badge [Sample.own]])
      Sample.desk = some (some 1) := by
    decide +kernel
  have hd' : Sample.matches
      (Sample.quiet [Sample.order [], Sample.badge [Sample.own, Sample.large]]) Sample.desk =
        some (some 1) := by
    decide +kernel
  obtain ⟨r, bs, hr, hbs, hone⟩ := Sample.matches_eq_some hd
  obtain ⟨b, rfl⟩ := List.length_eq_one_iff.mp hone
  obtain ⟨r', bs', hr', hbs', -⟩ := Sample.matches_eq_some hd'
  obtain ⟨r'', hr'', hsame⟩ := compile_redistributed hw hr hqs
  obtain rfl := Except.ok.inj (hr'.symm.trans hr'')
  have hjoin : bs' = [b] := by
    rw [(Pattern.matchAll_eq_ok.mp hbs').2, (Pattern.matchAll_eq_ok.mp hbs).2]
    exact (hsame Sample.desk).1
  rw [hjoin] at hbs'
  exact ⟨hw, hqs, r, r', b, hr, hr', hbs, hbs'⟩

def Sample.endless : List Value := [ordered 1 (.int Value.writtenBound)]

def Sample.unordered : List Value := [.text "gt", .text "$total", .text "x"]

/-- A total that is too long to be written is not one, and asked for this first the rule does not
match. Asked first for what cannot be compared, the same rule cannot be matched at all: the failure
would be logged with the total. -/
theorem compile_redistributed_overlong :
    (Sample.quiet [Sample.order [Sample.single, Sample.unordered]]).WellFormed ∧
    PatternSpec.Redistributed [] [Sample.order [Sample.single, Sample.unordered]]
      [Sample.order [Sample.unordered, Sample.single]] ∧
    ∃ r r', (Sample.quiet [Sample.order [Sample.single, Sample.unordered]]).compile = .ok r ∧
      (Sample.quiet [Sample.order [Sample.unordered, Sample.single]]).compile = .ok r' ∧
      (Pattern.matchAll r.patterns Sample.endless).value = .ok [] ∧
      (Pattern.matchAll r'.patterns Sample.endless).value = .error (.fault .unwritableInteger) := by
  have hd : Sample.matches (Sample.quiet [Sample.order [Sample.single, Sample.unordered]])
      Sample.endless = some (some 0) := by
    decide +kernel
  have hd' : Sample.matches (Sample.quiet [Sample.order [Sample.unordered, Sample.single]])
      Sample.endless = some none := by
    decide +kernel
  obtain ⟨r, bs, hr, hbs, hnone⟩ := Sample.matches_eq_some hd
  obtain rfl := List.length_eq_zero_iff.mp hnone
  obtain ⟨r', hr', hfails⟩ := map_eq_ok.mp (toOption_eq_some.mp hd')
  refine ⟨Sample.quiet_wellFormed fun p hp => ?_, .cons (.swap _ _ _) .nil, r, r', hr, hr', hbs, ?_⟩
  · exact ⟨_, .inl (List.mem_singleton.mp hp)⟩
  · cases hv : (Pattern.matchAll r'.patterns Sample.endless).value with
    | error e => exact congrArg _ (Pattern.matchAll_eq_error hv)
    | ok bs =>
      rw [hv] at hfails
      cases hfails

end RuleSpec

end RuleEngine
