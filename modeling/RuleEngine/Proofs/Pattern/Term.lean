import RuleEngine.Pattern.Term
import RuleEngine.Proofs.Condition
import RuleEngine.Proofs.Pattern.Join
import RuleEngine.Proofs.Value.WellFormed

/-!
# Matching terms

A matcher goes through the terms of a pattern and binds a variable when it comes to its first term.
A match that succeeds has come to every term, so what it binds are just the variables of the terms
and the variable for the whole fact (`select_adds`). A match that fails, rather than finding no
match, fails on a fault that shows no value (`matcherOf_failsBare`).
-/

namespace RuleEngine

variable {t v : Value} {b c d : Binding} {ns ms : List Name} {es : List (Value × Value)}

namespace Term

/-- The first field has to be there, and what comes of its term is handed on. -/
theorem satisfyFields_cons {k : Value} : satisfyFields ((k, t) :: es) v b =
    field v k >>= fun o => o.elim (.ok none) fun w =>
      satisfy t w b >>= fun o => o.elim (.ok none) (satisfyFields es v) := by
  change (field v k >>= _) = _
  refine congrArg (field v k >>= ·) (funext fun o => ?_)
  cases o with
  | none => rfl
  | some w =>
    refine congrArg (satisfy t w b >>= ·) (funext fun o => ?_)
    cases o <;> rfl

/-! ## Which variables are bound -/

/-- The second binding binds what the first one does, these names, and nothing else. -/
def Adds (ns : List Name) (b d : Binding) : Prop :=
  ∀ x, d.Binds x ↔ b.Binds x ∨ x ∈ ns.map Name.text

theorem Adds.refl (b : Binding) : Adds [] b b := fun _ => (or_iff_left List.not_mem_nil).symm

theorem Adds.trans (h : Adds ns b c) (k : Adds ms c d) : Adds (ns ++ ms) b d := by
  intro x
  rw [k x, h x, List.map_append, List.mem_append, or_assoc]

theorem bindVariable_adds {n : Name} (hn : n.WellFormed) (h : bindVariable n v b = some d) :
    Adds [n] b d := by
  unfold bindVariable at h
  intro x
  rw [List.map_singleton, List.mem_singleton]
  cases hl : Assoc.lookup n.value b with
  | none =>
    simp only [hl, Option.some.injEq] at h
    rw [← h, Binding.binds_append, Binding.binds_singleton, hn, Option.some.injEq, eq_comm]
  | some w =>
    have hd : b = d := by
      by_cases hw : (w == v) = true
      · simpa [hl, hw] using h
      · simp [hl, hw] at h
    rw [← hd]
    refine ⟨.inl, ?_⟩
    rintro (hb | rfl)
    · exact hb
    · obtain ⟨e, he, hk, -⟩ := Assoc.mem_of_lookup hl
      exact Binding.binds_iff.mpr ⟨e, he, Value.text_of_eq hk hn⟩

theorem literal_adds (h : (Except.ok (if t == v then some b else none) : Except Fault _) =
    .ok (some d)) : Adds [] b d := by
  have hd : b = d := by
    by_cases ht : (t == v) = true
    · simpa [ht] using h
    · simp [ht] at h
  rw [hd]
  exact .refl d

mutual

/-- Matching a term binds its variables. -/
theorem satisfy_adds (t v : Value) (b : Binding) {d : Binding}
    (hn : ∀ n ∈ variableNames t, n.WellFormed) (h : satisfy t v b = .ok (some d)) :
    Adds (variableNames t) b d := by
  cases t with
  | var n => exact bindVariable_adds (hn n List.mem_cons_self) (Except.ok.inj h)
  | any =>
    cases h
    exact .refl b
  | map es => exact satisfyFields_adds es v b hn h
  | _ => exact literal_adds h
termination_by structural t

theorem satisfyFields_adds (es : List (Value × Value)) (v : Value) (b : Binding) {d : Binding}
    (hn : ∀ n ∈ variablesOf es, n.WellFormed) (h : satisfyFields es v b = .ok (some d)) :
    Adds (variablesOf es) b d := by
  cases es with
  | nil =>
    cases h
    exact .refl b
  | cons e es =>
    obtain ⟨hhead, htail⟩ := List.forall_mem_append.mp hn
    rw [satisfyFields_cons] at h
    obtain ⟨o, -, h⟩ := bind_eq_ok.mp h
    cases o with
    | none => cases h
    | some w =>
      obtain ⟨o, ho, h⟩ := bind_eq_ok.mp h
      cases o with
      | none => cases h
      | some b' =>
        exact (satisfy_adds e.2 w b hhead ho).trans (satisfyFields_adds es v b' htail h)
termination_by structural es

end

theorem variablesOf_eq_flatMap (es : List (Value × Value)) :
    variablesOf es = es.flatMap fun e => variableNames e.2 := by
  induction es with
  | nil => rfl
  | cons e es ih => rw [variablesOf, ih, List.flatMap_cons]

/-- The variables of a term that can be built have the names they were given. -/
theorem variableNames_wellFormed (ht : t.WellFormed) : ∀ n ∈ variableNames t, n.WellFormed := by
  induction ht with
  | @atom t a ha hname =>
    cases t with
    | var n => simpa [variableNames] using hname n rfl
    | map => cases ha
    | _ => exact fun _ h => nomatch h
  | map _ _ _ _ _ ih =>
    rw [variableNames, variablesOf_eq_flatMap, List.forall_mem_flatMap]
    exact ih
  | @members t xs hm =>
    cases t with
    | set | frozenSet => exact fun _ h => nomatch h
    | _ => cases hm
  | list | tuple | object | key | method => exact fun _ h => nomatch h

theorem variablesOf_wellFormed (hes : ∀ e ∈ es, e.2.WellFormed) :
    ∀ n ∈ variablesOf es, n.WellFormed := by
  rw [variablesOf_eq_flatMap, List.forall_mem_flatMap]
  exact fun e he => variableNames_wellFormed (hes e he)

end Term

/-! ## How matching terms fails -/

namespace Term

theorem field_failsBare (v k : Value) : FailsBare (field v k) := by
  unfold field
  split
  · exact .ok _
  · exact Value.attributeOf_failsAs (fun _ _ => trivial) _ _

mutual

theorem satisfy_failsBare (t v : Value) (b : Binding) : FailsBare (satisfy t v b) := by
  cases t with
  | map es => exact satisfyFields_failsBare es v b
  | _ => exact .ok _
termination_by structural t

theorem satisfyFields_failsBare (es : List (Value × Value)) (v : Value) (b : Binding) :
    FailsBare (satisfyFields es v b) := by
  cases es with
  | nil => exact .ok _
  | cons e es =>
    obtain ⟨k, t⟩ := e
    rw [satisfyFields_cons]
    refine .bind (field_failsBare v k) fun o _ => ?_
    cases o with
    | none => exact .ok _
    | some w =>
      refine .bind (satisfy_failsBare t w b) fun o _ => ?_
      cases o with
      | none => exact .ok _
      | some c => exact satisfyFields_failsBare es v c
termination_by structural es

end

end Term

/-- A declared matcher fails only where the kind of a fact cannot be written or an attribute cannot
be read. -/
theorem Pattern.matcherOf_failsBare (kind : Kind) (es : List (Value × Value)) (bind : Option Name)
    (fact : Value) : FailsBare (matcherOf kind es bind fact) := by
  have hselects : FailsBare (kind.selects fact) := by
    cases kind with
    | anything | classes => exact .ok _
    | named => exact .bind (checkLength_failsAs trivial _) fun _ _ => .ok _
  refine .bind (.bind hselects fun selected _ => ?_) fun o _ => ?_
  · split
    · refine .bind (Term.satisfyFields_failsBare es fact []) fun o _ => ?_
      split <;> exact .ok _
    · exact .ok _
  · split <;> exact .ok _

/-! ## What a declared matcher binds -/

namespace Pattern

variable {fact : Value} {kind : Kind} {bind : Option Name}

theorem bindFact_adds (hn : ∀ n ∈ bind, n.WellFormed) (h : bindFact bind fact b = some d) :
    Term.Adds bind.toList b d := by
  cases bind with
  | none =>
    cases h
    exact .refl b
  | some n =>
    have hd : d = Assoc.insert n.value fact b := by
      unfold bindFact at h
      cases hl : Assoc.lookup n.value b with
      | none => simpa [hl, eq_comm] using h
      | some w =>
        by_cases hw : (w == fact) = true
        · simpa [hl, hw, eq_comm] using h
        · simp [hl, hw] at h
    intro x
    have htext : n.value.text? = some n.text := hn n rfl
    rw [hd, Binding.binds_insert, htext]
    simp [eq_comm]

/-- A fact that is selected binds the variables of all terms and the one for the whole fact. -/
theorem select_adds (hes : ∀ n ∈ Term.variablesOf es, n.WellFormed)
    (hn : ∀ n ∈ bind, n.WellFormed)
    (h : select kind es bind fact = .ok (some d)) :
    Term.Adds (Term.variablesOf es ++ bind.toList) [] d := by
  unfold select at h
  obtain ⟨selected, -, h⟩ := bind_eq_ok.mp h
  split at h
  · obtain ⟨o, ho, h⟩ := bind_eq_ok.mp h
    cases o with
    | none => cases h
    | some b =>
      exact (Term.satisfyFields_adds es fact [] hes ho).trans
        (bindFact_adds hn (Except.ok.inj h))
  · cases h

theorem matcherOf_eq_ok : matcherOf kind es bind fact = .ok v ↔
    ∃ o, select kind es bind fact = .ok o ∧ v = o.elim .none .map := by
  unfold matcherOf
  rw [bind_eq_ok]
  refine exists_congr fun o => and_congr_right fun _ => ?_
  cases o <;> exact pure_eq_ok.trans eq_comm

theorem found?_matcherOf {g : Option Guard} :
    found? ⟨matcherOf kind es bind, g⟩ fact = some c ↔ select kind es bind fact = .ok (some c) := by
  unfold found? matcherOf
  cases hs : select kind es bind fact with
  | error f => simp [hs, Bind.bind, Except.bind]
  | ok o => cases o <;> simp [hs, Bind.bind, Except.bind, Value.entries?, pure, Except.pure]

end Pattern

end RuleEngine
