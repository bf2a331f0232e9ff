import RuleEngine.Proofs.Condition
import RuleEngine.Proofs.Document.Template
import RuleEngine.Proofs.Pattern.Declared
import RuleEngine.Proofs.Pattern.Term

/-!
# Patterns of declared rules

The check at compile time counts the variables in the field terms of a pattern and its variable for
the whole fact, and a match binds just these (`select_adds`). Unifying loses none. So when the guard
of a pattern is asked, the variables of its own terms and of all patterns before it are bound, and
these are the ones its conditions may refer to.

* `found_binds`: what a declared pattern finds on a fact binds all its variables.
* `joinFrom_binds`, `compileFrom_asksBound`: what is bound where all patterns match, and where their
  guards are asked.
-/

namespace RuleEngine

variable {v : Value} {b c d : Binding} {es : List (Value × Value)}

/-! ## Declared field terms -/

namespace Document

theorem terms_eq_map (es : List (Value × Value)) : terms es = es.map fun e => (e.1, term e.2) := by
  induction es with
  | nil => rfl
  | cons e es ih => rw [terms, ih, List.map_cons]

theorem term_eq_of_not_map (h : ∀ es, v ≠ .map es) : term v = if v == .text "_" then .any
    else match Reference.name? v with
      | some n => .var (.ofText n)
      | none => Reference.unescape v := by
  cases v with
  | map es => exact absurd rfl (h es)
  | _ => rfl

/-- What is no map stands for the wildcard, for a variable, for a text or for itself. -/
theorem term_of_not_map (h : ∀ es, v ≠ .map es) : term v = .any ∨
    (∃ s, term v = .var (.ofText s)) ∨ (∃ s, term v = .text s) ∨ term v = v := by
  rw [term_eq_of_not_map h]
  split
  · exact .inl rfl
  · split
    · exact .inr (.inl ⟨_, rfl⟩)
    · unfold Reference.unescape
      split
      · exact .inr (.inr (.inl ⟨_, rfl⟩))
      · exact .inr (.inr (.inr rfl))

theorem term_wellFormed_of_not_map (hw : v.WellFormed) (h : ∀ es, v ≠ .map es) :
    (term v).WellFormed := by
  rcases term_of_not_map h with ha | ⟨s, hs⟩ | ⟨s, hs⟩ | hv
  · rw [ha]
    exact .atom rfl (by simp)
  · rw [hs]
    refine .atom rfl ?_
    intro n hn
    cases hn
    rfl
  · rw [hs]
    exact Value.wellFormed_text s
  · rw [hv]
    exact hw

theorem term_wellFormed (hw : v.WellFormed) : (term v).WellFormed := by
  induction hw with
  | map hk _ hh hd _ ihv =>
    rw [term, terms_eq_map]
    refine .map ?_ ?_ ?_ ?_
    · exact List.forall_mem_map.mpr hk
    · exact List.forall_mem_map.mpr ihv
    · exact List.forall_mem_map.mpr hh
    · exact List.pairwise_map.mpr hd
  | atom ha hname =>
    refine term_wellFormed_of_not_map (.atom ha hname) ?_
    rintro es rfl
    cases ha
  | members hm hx hh hd =>
    refine term_wellFormed_of_not_map (.members hm hx hh hd) ?_
    rintro es rfl
    cases hm
  | list hx => exact term_wellFormed_of_not_map (.list hx) nofun
  | tuple hx => exact term_wellFormed_of_not_map (.tuple hx) nofun
  | object hf => exact term_wellFormed_of_not_map (.object hf) nofun
  | key hk hr hb => exact term_wellFormed_of_not_map (.key hk hr hb) nofun
  | method ho => exact term_wellFormed_of_not_map (.method ho) nofun

end Document

/-! ## Compiling declared patterns -/

theorem Document.unbound_isEmpty {asked bound : List String} :
    (unbound asked bound).isEmpty = true ↔ ∀ x ∈ asked, x ∈ bound := by
  unfold unbound Text.sort
  rw [List.isEmpty_iff, List.eq_nil_iff_forall_not_mem]
  simp only [(StableSort.sort_perm _ _).mem_iff, List.mem_eraseDups, List.mem_filter,
    Bool.not_eq_true', List.contains_eq_mem, decide_eq_false_iff_not, not_and, not_not]

namespace Pattern

variable {m : Matcher} {g : Option Guard} {q : Pattern} {o : Option String} {bind : Option Name}

theorem checkBind_eq_ok (h : checkBind (o.elim .none .text) = .ok bind) :
    bind = o.map Name.ofText := by
  cases o with
  | none => exact (Except.ok.inj h).symm
  | some s =>
    by_cases hs : s = ""
    · rw [hs] at h
      cases h
    · simp [checkBind, Term.name?, Value.name?, Option.filter, hs] at h
      exact h.symm

/-- The matcher that is declared by a kind, field terms and a variable. -/
theorem declare_matcher {kind : Supplied Kind} {guard : Supplied Guard}
    (h : declare kind (.map es) [] guard (o.elim .none .text) = .ok q) :
    ∃ kind, q.matcher = matcherOf kind es (o.map Name.ofText) := by
  obtain ⟨-, kind, -, bind, hbind, fields, hfields, -, hmake⟩ := declare_eq_ok.mp h
  -- no terms are read from an empty map, and its own from any other
  have hown : fields = es := by
    cases es with
    | nil => exact (Except.ok.inj hfields).symm
    | cons e es => exact (Except.ok.inj hfields).symm
  refine ⟨kind, ?_⟩
  rw [make_eq_ok hmake, checkBind_eq_ok hbind, hown]
  rfl

end Pattern

namespace PatternSpec

variable {rule : String} {i : Nat} {bound : List String} {p : PatternSpec} {ps : List PatternSpec}
variable {q : Pattern} {qs : List Pattern} {facts : List Value}

/-- Without its conditions, the declared pattern has this matcher. -/
def HasMatcher (p : PatternSpec) (m : Matcher) : Prop :=
  Pattern.declare (.other (p.kind.elim .none .text)) (.map p.terms) [] (.other .none)
    (p.bind.elim .none .text) = .ok ⟨m, none⟩

/-- A declared pattern compiles exactly if it has a matcher and conditions that can be read, which
ask for variables bound before or by the pattern itself. -/
theorem compile_iff : p.compile rule i bound = .ok q ↔ ∃ cs m, p.readConditions = .ok cs ∧
    (∀ c ∈ cs, ∀ x ∈ c.variableNames, x ∈ bound ++ p.variableNames) ∧ p.HasMatcher m ∧
    q = ⟨m, Condition.guard? cs⟩ := by
  unfold compile HasMatcher
  rw [bind_eq_ok]
  refine exists_congr fun cs => ?_
  rw [exists_and_left]
  refine and_congr_right fun _ => ?_
  rw [exists_and_left]
  have hasked : (Document.unbound (cs.flatMap Condition.variableNames)
      (bound ++ p.variableNames)).isEmpty = true ↔
      ∀ c ∈ cs, ∀ x ∈ c.variableNames, x ∈ bound ++ p.variableNames := by
    rw [Document.unbound_isEmpty]
    simp only [List.mem_flatMap, forall_exists_index, and_imp]
    exact ⟨fun h c hc x hx => h x c hc hx, fun h x c hc hx => h c hc x hx⟩
  rw [← hasked]
  dsimp only
  split
  · rename_i h
    rw [Pattern.declare_guard, and_iff_right h]
  · rename_i h
    exact iff_of_false nofun fun k => h k.1

/-- A declared pattern that compiles has conditions that can be read, which ask for variables bound
before or by the pattern itself. -/
theorem compile_eq_ok (h : p.compile rule i bound = .ok q) :
    ∃ cs kind, p.readConditions = .ok cs ∧
      (∀ c ∈ cs, ∀ x ∈ c.variableNames, x ∈ bound ++ p.variableNames) ∧
      q = ⟨Pattern.matcherOf kind p.terms (p.bind.map Name.ofText), Condition.guard? cs⟩ := by
  obtain ⟨cs, m, hcs, hasked, hm, rfl⟩ := compile_iff.mp h
  obtain ⟨kind, hkind⟩ := Pattern.declare_matcher hm
  obtain rfl : m = _ := hkind
  exact ⟨cs, kind, hcs, hasked, rfl⟩

/-- What a declared pattern finds on a fact binds all its variables. -/
theorem found_binds (hp : ∀ e ∈ p.fields, e.2.WellFormed) (h : p.compile rule i bound = .ok q)
    {f : Value} (hf : q.found? f = some c) : ∀ x ∈ p.variableNames, c.Binds x := by
  obtain ⟨cs, kind, -, -, rfl⟩ := compile_eq_ok h
  have hterms : ∀ e ∈ p.terms, e.2.WellFormed := by
    unfold terms
    rw [Document.terms_eq_map]
    exact List.forall_mem_map.mpr fun e he => Document.term_wellFormed (hp e he)
  have hbind : ∀ n ∈ p.bind.map Name.ofText, n.WellFormed := by
    intro n hn
    obtain ⟨s, -, rfl⟩ := Option.map_eq_some_iff.mp hn
    rfl
  have hadds := Pattern.select_adds (Term.variablesOf_wellFormed hterms) hbind
    (Pattern.found?_matcherOf.mp hf)
  intro x hx
  refine (hadds x).mpr (.inr ?_)
  simpa [variableNames, Name.ofText, Option.mem_toList] using hx

/-! ## Joining declared patterns -/

/-- Wherever the guard of the compiled pattern is asked, on the way from these bindings, it finds
the variables of the declared conditions bound, and misses none. -/
def AsksBound (p : PatternSpec) (q : Pattern) (facts : List Value) (bs : List Binding) : Prop :=
  ∀ b ∈ bs, ∀ f ∈ facts, ∀ c d, q.found? f = some c → b.unify c = some d →
    (∀ cs, p.readConditions = .ok cs → ∀ a ∈ cs, ∀ x ∈ a.variableNames, d.Binds x) ∧
    ∀ g, q.guard = some g → ∀ k, g d ≠ .error (.missingKey k)

/-- Unifying with what a declared pattern finds keeps what is bound and binds its variables. -/
theorem unify_binds (hp : ∀ e ∈ p.fields, e.2.WellFormed) (h : p.compile rule i bound = .ok q)
    (hb : ∀ x ∈ bound, b.Binds x) {f : Value} (hf : q.found? f = some c) (hd : b.unify c = some d) :
    ∀ x ∈ bound ++ p.variableNames, d.Binds x := by
  intro x hx
  refine Binding.binds_unify hd ?_
  rcases List.mem_append.mp hx with hbound | hown
  · exact .inl (hb x hbound)
  · exact .inr (found_binds hp h hf x hown)

/-- One pattern joined to bindings of what was bound before. -/
theorem extend_binds (hp : ∀ e ∈ p.fields, e.2.WellFormed) (h : p.compile rule i bound = .ok q)
    {bs : List Binding} (hbs : ∀ b ∈ bs, ∀ x ∈ bound, b.Binds x) :
    ∀ d ∈ q.extend facts bs, ∀ x ∈ bound ++ p.variableNames, d.Binds x := by
  intro d hd
  simp only [Pattern.extend, Pattern.attempts, List.mem_filterMap, List.mem_flatMap,
    List.mem_map] at hd
  obtain ⟨_, ⟨b, hb, f, -, rfl⟩, hd⟩ := hd
  obtain ⟨c, hf, hu, -⟩ := Pattern.attempt_binding.mp hd
  exact unify_binds hp h (hbs b hb) hf hu

/-- A guard asked where its variables are bound fails only as comparisons do. -/
theorem compile_guard_failsBare (h : p.compile rule i bound = .ok q)
    (hd : ∀ x ∈ bound ++ p.variableNames, d.Binds x) {g : Guard} (hg : q.guard = some g) :
    FailsBare (g d) := by
  obtain ⟨cs, kind, -, hasked, rfl⟩ := compile_eq_ok h
  simp only [Condition.guard?] at hg
  split at hg
  · cases hg
  · cases hg
    intro f hf
    exact Condition.allHold_failsBare (fun c hc x hx => hd x (hasked c hc x hx)) f
      (map_eq_error.mp hf)

theorem compile_asksBound (hp : ∀ e ∈ p.fields, e.2.WellFormed)
    (h : p.compile rule i bound = .ok q) {bs : List Binding}
    (hbs : ∀ b ∈ bs, ∀ x ∈ bound, b.Binds x) : p.AsksBound q facts bs := by
  intro b hb f _ c d hf hd
  have hall := unify_binds hp h (hbs b hb) hf hd
  refine ⟨fun cs hcs a ha x hx => ?_, fun g hg k he => ?_⟩
  · obtain ⟨cs', kind, hcs', hasked, -⟩ := compile_eq_ok h
    obtain rfl := Except.ok.inj (hcs.symm.trans hcs')
    exact hall x (hasked a ha x hx)
  · exact (compile_guard_failsBare h hall hg _ he).ne_missingKey rfl

theorem compileFrom_cons (h : compileFrom rule i bound (p :: ps) = .ok qs) :
    ∃ q qs', p.compile rule i bound = .ok q ∧
      compileFrom rule (i + 1) (bound ++ p.variableNames) ps = .ok qs' ∧ qs = q :: qs' := by
  simp only [compileFrom, bind_eq_ok, pure_eq_ok] at h
  obtain ⟨q, hq, qs', hqs, rfl⟩ := h
  exact ⟨q, qs', hq, hqs, rfl⟩

theorem compileFrom_length (h : compileFrom rule i bound ps = .ok qs) : qs.length = ps.length := by
  induction ps generalizing i bound qs with
  | nil =>
    cases h
    rfl
  | cons p ps ih =>
    obtain ⟨q, qs, -, hqs, rfl⟩ := compileFrom_cons h
    rw [List.length_cons, List.length_cons, ih hqs]

/-- Where all patterns match, the variables of all of them are bound. -/
theorem joinFrom_binds (hps : ∀ p ∈ ps, ∀ e ∈ p.fields, e.2.WellFormed)
    (h : compileFrom rule i bound ps = .ok qs) {bs : List Binding}
    (hbs : ∀ b ∈ bs, ∀ x ∈ bound, b.Binds x) :
    ∀ d ∈ Pattern.joinFrom facts bs qs, ∀ x ∈ bound ++ ps.flatMap variableNames, d.Binds x := by
  induction ps generalizing i bound qs bs with
  | nil =>
    cases h
    simpa [Pattern.joinFrom] using hbs
  | cons p ps ih =>
    obtain ⟨q, qs, hq, hqs, rfl⟩ := compileFrom_cons h
    obtain ⟨hp, hps⟩ := List.forall_mem_cons.mp hps
    rw [List.flatMap_cons, ← List.append_assoc]
    exact ih hps hqs (extend_binds hp hq hbs)

/-- At every position a pattern is compiled with variables that are bound where it is reached. -/
theorem compileFrom_at (hps : ∀ p ∈ ps, ∀ e ∈ p.fields, e.2.WellFormed)
    (h : compileFrom rule i bound ps = .ok qs) {bs : List Binding}
    (hbs : ∀ b ∈ bs, ∀ x ∈ bound, b.Binds x) {j : Nat} (hp : ps[j]? = some p)
    (hq : qs[j]? = some q) : ∃ k bound', p.compile rule k bound' = .ok q ∧
      ∀ b ∈ Pattern.joinFrom facts bs (qs.take j), ∀ x ∈ bound', b.Binds x := by
  induction ps generalizing i bound qs bs j with
  | nil => cases hp
  | cons p' ps ih =>
    obtain ⟨q', qs, hq', hqs, rfl⟩ := compileFrom_cons h
    obtain ⟨hp', hps⟩ := List.forall_mem_cons.mp hps
    cases j with
    | zero =>
      cases hp
      cases hq
      exact ⟨i, bound, hq', hbs⟩
    | succ j => exact ih hps hqs (extend_binds hp' hq' hbs) hp hq

/-- At every position, what the conditions ask for is bound wherever they are asked. -/
theorem compileFrom_asksBound (hps : ∀ p ∈ ps, ∀ e ∈ p.fields, e.2.WellFormed)
    (h : compileFrom rule i bound ps = .ok qs) {bs : List Binding}
    (hbs : ∀ b ∈ bs, ∀ x ∈ bound, b.Binds x) {j : Nat} (hp : ps[j]? = some p)
    (hq : qs[j]? = some q) : p.AsksBound q facts (Pattern.joinFrom facts bs (qs.take j)) := by
  obtain ⟨k, bound', hcompile, hbound⟩ := compileFrom_at hps h hbs hp hq
  exact compile_asksBound (hps p (List.mem_of_getElem? hp)) hcompile hbound

/-- Matchers and guards of declared patterns fail on faults that show no value. -/
theorem compileFrom_failsBare (hps : ∀ p ∈ ps, ∀ e ∈ p.fields, e.2.WellFormed)
    (h : compileFrom rule i bound ps = .ok qs) {bs : List Binding}
    (hbs : ∀ b ∈ bs, ∀ x ∈ bound, b.Binds x) : ∀ a ∈ Pattern.joinAttempts facts bs qs,
      (∀ v f, a = .matcherFailed v f → f.IsBare) ∧ ∀ d f, a = .guardFailed d f → f.IsBare := by
  intro a ha
  obtain ⟨j, q, hq, b, hb, f, hf, hattempt⟩ := Pattern.mem_joinAttempts.mp ha
  have hj : j < ps.length := by
    rw [← compileFrom_length h]
    exact (List.getElem?_eq_some_iff.mp hq).1
  have hp : ps[j]? = some ps[j] := List.getElem?_eq_getElem hj
  obtain ⟨k, bound', hcompile, hbound⟩ := compileFrom_at hps h hbs hp hq
  constructor
  · rintro v e rfl
    obtain ⟨-, hm⟩ := Pattern.attempt_matcherFailed hattempt
    obtain ⟨cs, kind, -, -, rfl⟩ := compile_eq_ok hcompile
    exact Pattern.matcherOf_failsBare kind _ _ f e hm
  · rintro d e rfl
    obtain ⟨c, g, hfound, hunify, hguard, hg⟩ := Pattern.attempt_guardFailed hattempt
    have hall := unify_binds (hps _ (List.mem_of_getElem? hp)) hcompile (hbound b hb) hfound hunify
    exact compile_guard_failsBare hcompile hall hguard e hg

theorem compileFrom_attempts (hps : ∀ p ∈ ps, ∀ e ∈ p.fields, e.2.WellFormed)
    (h : compileFrom rule i bound ps = .ok qs) {bs : List Binding}
    (hbs : ∀ b ∈ bs, ∀ x ∈ bound, b.Binds x) :
    ∀ a ∈ Pattern.joinAttempts facts bs qs, ∀ d k, a ≠ .guardFailed d (.missingKey k) :=
  fun a ha d _ hd => (compileFrom_failsBare hps h hbs a ha).2 d _ hd

/-- The conditions of all patterns can be read, and ask for variables of these patterns. -/
theorem compileFrom_asked (h : compileFrom rule i bound ps = .ok qs) :
    ∀ p ∈ ps, ∃ cs, p.readConditions = .ok cs ∧
      ∀ c ∈ cs, ∀ x ∈ c.variableNames, x ∈ bound ++ ps.flatMap variableNames := by
  induction ps generalizing i bound qs with
  | nil => exact fun _ hp => nomatch hp
  | cons p ps ih =>
    obtain ⟨q, qs, hq, hqs, rfl⟩ := compileFrom_cons h
    obtain ⟨cs, kind, hcs, hasked, -⟩ := compile_eq_ok hq
    rw [List.flatMap_cons, ← List.append_assoc]
    refine List.forall_mem_cons.mpr ⟨⟨cs, hcs, ?_⟩, ih hqs⟩
    intro c hc x hx
    exact List.mem_append_left _ (hasked c hc x hx)

end PatternSpec

end RuleEngine
