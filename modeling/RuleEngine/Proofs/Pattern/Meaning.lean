import RuleEngine.Proofs.Binding.Within
import RuleEngine.Proofs.Pattern.Declared
import RuleEngine.Proofs.Pattern.Term
import RuleEngine.Proofs.Value.Legible

/-!
# What field terms mean

A matcher hands one binding from term to term: a variable is bound at its first term and compared at
the others. What the terms ask for can be said without any order. An assignment gives a value to
every variable, and it either satisfies a term for a value or does not (`Term.Satisfied`); field
terms are satisfied if all of them are (`Term.allSatisfied_iff`).

The two are tied by the assignments that fit a binding, which have equal values for everything it
binds. Matching narrows these down to the ones that satisfy the terms matched so far (`Narrows`,
`Term.satisfy_narrows`). So it succeeds just if an assignment is left, and the binding it ends with
is one that all others agree with. Nothing of this depends on the order of the terms, at whatever
depth they stand (`Term.Reordered`).

* `Pattern.declare_decides`: a declared pattern accepts just what its terms mean, and binds what
  they determine, in whatever order they are given.
-/

namespace RuleEngine

abbrev Assignment := String → Value

/-! ## Terms and assignments -/

namespace Term

mutual

/-- Whether a value satisfies a term under an assignment. -/
def Satisfied (σ : Assignment) : Value → Value → Prop
  | .var n, v => (v == σ n.text) = true
  | .any, _ => True
  | .map es, v => AllSatisfied σ es v
  | t, v => (t == v) = true
termination_by structural t => t

/-- Whether the fields of a value are there and satisfy their terms under an assignment. -/
def AllSatisfied (σ : Assignment) : List (Value × Value) → Value → Prop
  | [], _ => True
  | (k, t) :: es, v => (∃ w, field v k = .ok (some w) ∧ Satisfied σ t w) ∧ AllSatisfied σ es v
termination_by structural es => es

end

variable {σ : Assignment} {t v w : Value} {n : Name} {es fs : List (Value × Value)}

theorem allSatisfied_iff : AllSatisfied σ es v ↔
    ∀ e ∈ es, ∃ w, field v e.1 = .ok (some w) ∧ Satisfied σ e.2 w := by
  induction es with
  | nil => exact iff_of_true trivial nofun
  | cons e es ih => rw [AllSatisfied, ih, List.forall_mem_cons]

/-- Field terms in another order, or with the field terms of a field in another order. -/
inductive Reordered : List (Value × Value) → List (Value × Value) → Prop where
  | perm {es fs : List (Value × Value)} (perm : es.Perm fs) : Reordered es fs
  | inside {as bs es fs : List (Value × Value)} {k : Value} (fields : Reordered es fs) :
      Reordered (as ++ (k, .map es) :: bs) (as ++ (k, .map fs) :: bs)
  | trans {es fs gs : List (Value × Value)} (left : Reordered es fs) (right : Reordered fs gs) :
      Reordered es gs

theorem Reordered.allSatisfied_iff (h : Reordered es fs) :
    AllSatisfied σ es v ↔ AllSatisfied σ fs v := by
  induction h generalizing v with
  | perm hperm => simp only [Term.allSatisfied_iff, hperm.mem_iff]
  | inside _ ih =>
    simp only [Term.allSatisfied_iff, List.forall_mem_append, List.forall_mem_cons]
    refine and_congr_right fun _ => and_congr_left fun _ => exists_congr fun w => ?_
    exact and_congr_right fun _ => ih
  | trans _ _ ih ih' => exact ih.trans ih'

theorem Reordered.mem_variablesOf (h : Reordered es fs) :
    n ∈ variablesOf es ↔ n ∈ variablesOf fs := by
  induction h with
  | perm hperm => simp only [variablesOf_eq_flatMap, List.mem_flatMap, hperm.mem_iff]
  | inside _ ih =>
    simp only [variablesOf_eq_flatMap, List.flatMap_append, List.flatMap_cons, List.mem_append,
      variableNames] at ih ⊢
    rw [ih]
  | trans _ _ ih ih' => exact ih.trans ih'

end Term

/-! ## Bindings and assignments -/

namespace Binding

variable {b c d : Binding} {e : Value × Value} {x : String} {σ : Assignment}

/-- A proper binding of variables that are texts. -/
structure Textual (b : Binding) : Prop where
  proper : b.Proper
  texts : ∀ e ∈ b, ∃ x, e.1.text? = some x

/-- What the binding binds has equal values in the assignment. -/
def Fits (b : Binding) (σ : Assignment) : Prop :=
  ∀ e ∈ b, ∀ x, e.1.text? = some x → (e.2 == σ x) = true

/-- The assignment that has the values the binding has. -/
def assignment (b : Binding) : Assignment := fun x => (Assoc.lookup (.text x) b).getD .none

theorem Textual.nil : Textual [] := ⟨.nil, nofun⟩

theorem fits_nil : Fits [] σ := nofun

theorem fits_append : Fits (b ++ c) σ ↔ b.Fits σ ∧ c.Fits σ := List.forall_mem_append

theorem fits_singleton {k v : Value} (hk : k.text? = some x) :
    Fits [(k, v)] σ ↔ (v == σ x) = true := by
  simp [Fits, hk]

theorem Proper.assignment_eq (hb : b.Proper) (he : e ∈ b) (hx : e.1.text? = some x) :
    b.assignment x = e.2 := by
  unfold assignment
  cases hl : Assoc.lookup (.text x) b with
  | none =>
    have hne := Assoc.lookup_eq_none.mp hl e he
    exact absurd (hne.symm.trans (Value.eq_text.mpr hx)) Bool.false_ne_true
  | some w =>
    obtain ⟨f, hf, hkey, rfl⟩ := Assoc.mem_of_lookup hl
    rw [hb.eq_of_key hf he hkey (Value.eq_text.mpr hx)]
    rfl

theorem Textual.assignment_eq (hb : b.Textual) (he : e ∈ b) (hx : e.1.text? = some x) :
    b.assignment x = e.2 := hb.proper.assignment_eq he hx

theorem Textual.fits_assignment (hb : b.Textual) : b.Fits b.assignment := by
  intro e he x hx
  rw [hb.assignment_eq he hx]
  exact (hb.proper.value_isSteady he).refl

/-- The values of an assignment that fits a binding equal those of the binding. -/
theorem Textual.agrees (hb : b.Textual) (h : b.Fits σ) (hx : b.Binds x) :
    (b.assignment x == σ x) = true := by
  obtain ⟨e, he, htext⟩ := binds_iff.mp hx
  rw [hb.assignment_eq he htext]
  exact h e he x htext

/-- Of two bindings of the same variables, one is within the other if its values are. -/
theorem Textual.within (hb : b.Textual) (hc : c.Textual) (hbinds : ∀ x, b.Binds x → c.Binds x)
    (h : b.Fits c.assignment) : Within b c := by
  intro e he
  obtain ⟨x, hx⟩ := hb.texts e he
  obtain ⟨f, hf, hfx⟩ := binds_iff.mp (hbinds x (binds_iff.mpr ⟨e, he, hx⟩))
  have hkey : (e.1 == f.1) = true :=
    (Value.eqv_of_atom (Value.text_eq_some.mp hx)).mpr ⟨by simp, Value.text_eq_some.mp hfx⟩
  exact ⟨f, hf, hkey, hc.assignment_eq hf hfx ▸ h e he x hx⟩

/-- Of the assignments that fit a binding, just those that reach a goal fit what comes of it. -/
structure Narrows (goal : Assignment → Prop) (b : Binding) (o : Option Binding) : Prop where
  textual : ∀ d, o = some d → d.Textual
  fits_iff : ∀ σ, b.Fits σ ∧ goal σ ↔ ∃ d, o = some d ∧ d.Fits σ

variable {goal goal' : Assignment → Prop} {o : Option Binding}

theorem Narrows.all (hb : b.Textual) (h : ∀ σ, b.Fits σ → goal σ) : Narrows goal b (some b) where
  textual d hd := by
    cases hd
    exact hb
  fits_iff := by simpa using h

theorem Narrows.none (h : ∀ σ, b.Fits σ → ¬ goal σ) : Narrows goal b Option.none where
  textual := nofun
  fits_iff := by simpa using h

theorem Narrows.and (h : Narrows goal b (some c)) (k : Narrows goal' c o) :
    Narrows (fun σ => goal σ ∧ goal' σ) b o where
  textual := k.textual
  fits_iff σ := by
    have hc : b.Fits σ ∧ goal σ ↔ c.Fits σ := by simpa using h.fits_iff σ
    rw [← and_assoc, hc, k.fits_iff]

theorem Narrows.none_and (h : Narrows goal b Option.none) :
    Narrows (fun σ => goal σ ∧ goal' σ) b Option.none :=
  .none fun σ hb hgoal => by simpa using (h.fits_iff σ).mp ⟨hb, hgoal.1⟩

theorem Narrows.compare {v : Value} (hb : b.Textual) (he : e ∈ b) (hx : e.1.text? = some x)
    (h : (e.2 == v) = true) : Narrows (fun σ => (v == σ x) = true) b (some b) :=
  .all hb fun σ hσ => ((hb.proper.value_isSteady he).congr h (σ x)).trans (hσ e he x hx)

theorem Narrows.clash {v : Value} (hb : b.Textual) (he : e ∈ b) (hx : e.1.text? = some x)
    (hv : v.Proper) (h : ¬ (e.2 == v) = true) :
    Narrows (fun σ => (v == σ x) = true) b Option.none :=
  .none fun _ hσ hvσ => h ((hb.proper.value_isSteady he).join hv.isSteady (hσ e he x hx) hvσ)

theorem Narrows.bind {k v : Value} (hb : b.Textual) (hk : k.text? = some x) (hkp : k.Proper)
    (hv : v.Proper) (h : Assoc.lookup k b = Option.none) :
    Narrows (fun σ => (v == σ x) = true) b (some (b ++ [(k, v)])) where
  textual d hd := by
    cases hd
    refine ⟨hb.proper.append_new hkp hv (Assoc.lookup_eq_none.mp h), ?_⟩
    exact List.forall_mem_append.mpr ⟨hb.texts, List.forall_mem_singleton.mpr ⟨x, hk⟩⟩
  fits_iff σ := by simp [fits_append, fits_singleton hk]

/-- An equal value takes the place of the one that the variable had. -/
theorem Narrows.replace {as bs : Binding} {k v w : Value} (hb : Textual (as ++ (k, v) :: bs))
    (hk : k.text? = some x) (hw : w.Proper) (h : (v == w) = true) :
    Narrows (fun σ => (w == σ x) = true) (as ++ (k, v) :: bs) (some (as ++ (k, w) :: bs)) where
  textual d hd := by
    cases hd
    obtain ⟨hkeys, hvalues, hdistinct⟩ := proper_iff.mp hb.proper
    simp only [List.forall_mem_append, List.forall_mem_cons] at hkeys hvalues
    refine ⟨proper_iff.mpr ⟨?_, ?_, Assoc.distinct_of_keys (by simp) hdistinct⟩, ?_⟩
    · simpa only [List.forall_mem_append, List.forall_mem_cons] using hkeys
    · simpa only [List.forall_mem_append, List.forall_mem_cons] using
        ⟨hvalues.1, hw, hvalues.2.2⟩
    · simpa only [List.forall_mem_append, List.forall_mem_cons] using hb.texts
  fits_iff σ := by
    have hv : v.IsSteady := hb.proper.value_isSteady (e := (k, v)) (by simp)
    have hmoved : (v == σ x) = (w == σ x) := (hv.congr h (σ x)).symm
    have hsplit (u : Value) : Fits (as ++ (k, u) :: bs) σ ↔
        as.Fits σ ∧ (u == σ x) = true ∧ bs.Fits σ := by
      rw [← fits_singleton hk, ← fits_append, ← fits_append]
      rfl
    simp only [Option.some.injEq, exists_eq_left', hsplit, hmoved]
    exact and_iff_left_of_imp fun h => h.2.1

end Binding

/-! ## Matching narrows down -/

namespace Term

open Binding (Narrows Textual Fits)

variable {t v w : Value} {n : Name} {b : Binding} {es : List (Value × Value)}

theorem bindVariable_narrows (hn : n.WellFormed) (hv : v.Proper) (hb : b.Textual) :
    Narrows (fun σ => (v == σ n.text) = true) b (bindVariable n v b) := by
  have hname : n.value.Proper := .atom (Value.text_eq_some.mp hn) (by simp)
  unfold bindVariable
  cases hl : Assoc.lookup n.value b with
  | none => exact .bind hb hn hname hv hl
  | some w =>
    obtain ⟨e, he, hkey, rfl⟩ := Assoc.mem_of_lookup hl
    have hx := Value.text_of_eq hkey hn
    by_cases h : (e.2 == v) = true
    · simp only [h, if_true]
      exact .compare hb he hx h
    · simp only [h]
      exact .clash hb he hx hv h

theorem literal_narrows (hb : b.Textual) :
    Narrows (fun _ => (t == v) = true) b (if t == v then some b else none) := by
  split
  · rename_i h
    exact .all hb fun _ _ => h
  · rename_i h
    exact .none fun _ _ => h

theorem satisfyFields_missing {k : Value} (h : field v k = .ok none) :
    satisfyFields ((k, t) :: es) v b = .ok none := by
  rw [satisfyFields_cons, h]
  rfl

theorem satisfyFields_present {k : Value} (h : field v k = .ok (some w)) :
    satisfyFields ((k, t) :: es) v b =
      satisfy t w b >>= fun o => o.elim (.ok none) (satisfyFields es v) := by
  rw [satisfyFields_cons, h]
  rfl

theorem allSatisfied_present {k : Value} (h : field v k = .ok (some w)) {σ : Assignment} :
    AllSatisfied σ ((k, t) :: es) v ↔ Satisfied σ t w ∧ AllSatisfied σ es v := by
  simp [AllSatisfied, h]

mutual

/-- Matching a term keeps just the assignments that satisfy it. -/
theorem satisfy_narrows (t v : Value) (b : Binding) (hn : ∀ n ∈ variableNames t, n.WellFormed)
    (hv : v.Legible) (hb : b.Textual) :
    ∃ o, satisfy t v b = .ok o ∧ Narrows (fun σ => Satisfied σ t v) b o := by
  cases t with
  | var n =>
    have hname : n.WellFormed := hn n List.mem_cons_self
    exact ⟨_, rfl, bindVariable_narrows hname (hv.proper .self) hb⟩
  | any => exact ⟨some b, rfl, .all hb fun _ _ => trivial⟩
  | map es => exact satisfyFields_narrows es v b hn hv hb
  | _ => exact ⟨_, rfl, literal_narrows hb⟩
termination_by structural t

/-- Matching field terms keeps just the assignments that satisfy all of them. -/
theorem satisfyFields_narrows (es : List (Value × Value)) (v : Value) (b : Binding)
    (hn : ∀ n ∈ variablesOf es, n.WellFormed) (hv : v.Legible) (hb : b.Textual) :
    ∃ o, satisfyFields es v b = .ok o ∧ Narrows (fun σ => AllSatisfied σ es v) b o := by
  cases es with
  | nil => exact ⟨some b, rfl, .all hb fun _ _ => trivial⟩
  | cons e es =>
    obtain ⟨k, t⟩ := e
    obtain ⟨hhead, htail⟩ := List.forall_mem_append.mp hn
    obtain ⟨o, ho⟩ := hv.reads .self k
    cases o with
    | none =>
      -- no assignment helps where the field is missing
      refine ⟨none, satisfyFields_missing ho, .none fun σ _ hσ => ?_⟩
      obtain ⟨⟨w, hw, -⟩, -⟩ := hσ
      cases ho.symm.trans hw
    | some w =>
      obtain ⟨o', ho', hnarrows⟩ := satisfy_narrows t w b hhead (hv.field ho) hb
      simp only [satisfyFields_present ho, allSatisfied_present ho, ho']
      cases o' with
      | none => exact ⟨none, rfl, hnarrows.none_and⟩
      | some c =>
        obtain ⟨o'', ho'', hrest⟩ :=
          satisfyFields_narrows es v c htail hv (hnarrows.textual c rfl)
        exact ⟨o'', ho'', hnarrows.and hrest⟩
termination_by structural es

end

end Term

/-! ## What a declared pattern accepts -/

namespace Pattern

open Binding (Narrows Textual)
open Term (AllSatisfied Reordered variablesOf)

variable {fact : Value} {b : Binding} {k : Kind} {o : Option Name} {m m' : Matcher}
variable {es fs : List (Value × Value)}

/-- Whether the assignment satisfies the field terms, and gives the fact to the variable for it. -/
def Meets (es : List (Value × Value)) (o : Option Name) (fact : Value) (σ : Assignment) : Prop :=
  AllSatisfied σ es fact ∧ ∀ n, o = some n → (fact == σ n.text) = true

theorem bindFact_narrows (ho : ∀ n, o = some n → n.WellFormed) (hfact : fact.Proper)
    (hb : b.Textual) :
    Narrows (fun σ => ∀ n, o = some n → (fact == σ n.text) = true) b (bindFact o fact b) := by
  cases o with
  | none => exact .all hb fun _ _ => nofun
  | some n =>
    have hn : n.value.text? = some n.text := ho n rfl
    have hname : n.value.Proper := .atom (Value.text_eq_some.mp hn) (by simp)
    simp only [bindFact, Option.some.injEq, forall_eq']
    cases hl : Assoc.lookup n.value b with
    | none =>
      rw [Assoc.insert_of_not_contains (by rw [← Assoc.lookup_isSome, hl]; rfl)]
      exact .bind hb hn hname hfact hl
    | some v =>
      by_cases h : (v == fact) = true
      · obtain ⟨as, k, bs, rfl, hkey, has⟩ := Assoc.split_of_lookup hl
        simp only [h, if_true, Assoc.insert_split hkey has]
        exact .replace hb (Value.text_of_eq hkey hn) hfact h
      · obtain ⟨e, he, hkey, rfl⟩ := Assoc.mem_of_lookup hl
        simp only [h]
        exact .clash hb he (Value.text_of_eq hkey hn) hfact h

theorem select_narrows (hes : ∀ n ∈ variablesOf es, n.WellFormed)
    (ho : ∀ n, o = some n → n.WellFormed) (hfact : fact.Legible)
    (hkind : k.selects fact = .ok true) :
    ∃ r, select k es o fact = .ok r ∧ Narrows (Meets es o fact) [] r := by
  obtain ⟨r, hr, hnarrows⟩ := Term.satisfyFields_narrows es fact [] hes hfact .nil
  unfold select
  rw [hkind, hr]
  cases r with
  | none => exact ⟨none, rfl, hnarrows.none_and⟩
  | some b =>
    have hrest := bindFact_narrows ho (hfact.proper .self) (hnarrows.textual b rfl)
    exact ⟨_, rfl, hnarrows.and hrest⟩

/-- The matcher returns a binding. -/
def Gives (m : Matcher) (fact : Value) (b : Binding) : Prop := m fact = .ok (.map b)

/-- A matcher decides what a kind, field terms and a variable for the fact mean: it returns a
binding just if some assignment meets them, the binding is of their variables and nothing else, and
what it holds is what every such assignment has. -/
structure Decides (m : Matcher) (k : Kind) (es : List (Value × Value)) (o : Option Name)
    (fact : Value) : Prop where
  gives_iff : (∃ b, Gives m fact b) ↔ k.selects fact = .ok true ∧ ∃ σ, Meets es o fact σ
  returns : ∀ selected, k.selects fact = .ok selected →
    (∃ b, Gives m fact b) ∨ m fact = .ok .none
  textual : ∀ {b : Binding}, Gives m fact b → b.Textual
  binds_iff : ∀ {b : Binding}, Gives m fact b →
    ∀ x, b.Binds x ↔ x ∈ (variablesOf es ++ o.toList).map Name.text
  meets : ∀ {b : Binding}, Gives m fact b → Meets es o fact b.assignment
  agrees : ∀ {b : Binding} {σ : Assignment}, Gives m fact b → Meets es o fact σ →
    ∀ x, b.Binds x → (b.assignment x == σ x) = true

theorem gives_matcherOf : Gives (matcherOf k es o) fact b ↔
    select k es o fact = .ok (some b) := by
  unfold Gives
  rw [matcherOf_eq_ok]
  constructor
  · rintro ⟨r, hr, h⟩
    cases r with
    | none => cases h
    | some c =>
      cases h
      exact hr
  · intro h
    exact ⟨some b, h, rfl⟩

theorem select_selects (h : select k es o fact = .ok (some b)) : k.selects fact = .ok true := by
  unfold select at h
  obtain ⟨selected, hselected, h⟩ := bind_eq_ok.mp h
  cases selected with
  | true => exact hselected
  | false => cases h

theorem select_returns (hes : ∀ n ∈ variablesOf es, n.WellFormed)
    (ho : ∀ n, o = some n → n.WellFormed) (hfact : fact.Legible) {selected : Bool}
    (hkind : k.selects fact = .ok selected) : ∃ r, select k es o fact = .ok r := by
  cases selected with
  | true =>
    obtain ⟨r, hr, -⟩ := select_narrows hes ho hfact hkind
    exact ⟨r, hr⟩
  | false => exact ⟨none, by rw [select, hkind]; rfl⟩

/-- Exactly the assignments that meet what is asked fit a binding that is returned. -/
theorem Gives.meets_iff (hes : ∀ n ∈ variablesOf es, n.WellFormed)
    (ho : ∀ n, o = some n → n.WellFormed) (hfact : fact.Legible)
    (h : Gives (matcherOf k es o) fact b) : b.Textual ∧ ∀ σ, Meets es o fact σ ↔ b.Fits σ := by
  have hb := gives_matcherOf.mp h
  obtain ⟨r, hr, hnarrows⟩ := select_narrows hes ho hfact (select_selects hb)
  obtain rfl : r = some b := Except.ok.inj (hr.symm.trans hb)
  exact ⟨hnarrows.textual b rfl, fun σ => by simpa [Binding.fits_nil] using hnarrows.fits_iff σ⟩

theorem matcherOf_decides (hes : ∀ n ∈ variablesOf es, n.WellFormed)
    (ho : ∀ n, o = some n → n.WellFormed) (hfact : fact.Legible) :
    Decides (matcherOf k es o) k es o fact := by
  constructor
  case gives_iff =>
    constructor
    · rintro ⟨b, hb⟩
      obtain ⟨htextual, hmeets⟩ := hb.meets_iff hes ho hfact
      exact ⟨select_selects (gives_matcherOf.mp hb), b.assignment,
        (hmeets _).mpr htextual.fits_assignment⟩
    · rintro ⟨hkind, σ, hσ⟩
      obtain ⟨r, hr, hnarrows⟩ := select_narrows hes ho hfact hkind
      obtain ⟨b, rfl, -⟩ := (hnarrows.fits_iff σ).mp ⟨Binding.fits_nil, hσ⟩
      exact ⟨b, gives_matcherOf.mpr hr⟩
  case returns =>
    intro selected hkind
    obtain ⟨r, hr⟩ := select_returns hes ho hfact hkind
    cases r with
    | some b => exact .inl ⟨b, gives_matcherOf.mpr hr⟩
    | none => exact .inr (matcherOf_eq_ok.mpr ⟨none, hr, rfl⟩)
  case textual => exact fun h => (h.meets_iff hes ho hfact).1
  case binds_iff =>
    intro b h x
    have hadds := select_adds hes (fun n hn => ho n hn) (gives_matcherOf.mp h) x
    simpa [Binding.binds_iff] using hadds
  case meets =>
    intro b h
    obtain ⟨htextual, hmeets⟩ := h.meets_iff hes ho hfact
    exact (hmeets _).mpr htextual.fits_assignment
  case agrees =>
    intro b σ h hσ x hx
    obtain ⟨htextual, hmeets⟩ := h.meets_iff hes ho hfact
    exact htextual.agrees ((hmeets σ).mp hσ) hx

/-- What a matcher decides does not depend on the order of the field terms, at any depth: it accepts
the same facts, with equal bindings. -/
theorem Decides.reordered (h : Decides m k es o fact) (h' : Decides m' k fs o fact)
    (hes : Reordered es fs) :
    ((∃ b, Gives m fact b) ↔ ∃ c, Gives m' fact c) ∧
    ∀ b c, Gives m fact b → Gives m' fact c → (Value.map b == Value.map c) = true := by
  have hmeets {σ : Assignment} : Meets es o fact σ ↔ Meets fs o fact σ :=
    and_congr_left fun _ => hes.allSatisfied_iff
  have hbinds {b c : Binding} (hb : Gives m fact b) (hc : Gives m' fact c) (x : String) :
      b.Binds x ↔ c.Binds x := by
    rw [h.binds_iff hb, h'.binds_iff hc]
    simp only [List.map_append, List.mem_append, List.mem_map, hes.mem_variablesOf]
  refine ⟨by simp only [h.gives_iff, h'.gives_iff, hmeets], fun b c hb hc => ?_⟩
  have hbt := h.textual hb
  have hct := h'.textual hc
  refine (Binding.eqv_iff_within hbt.proper hct.proper).mpr ⟨?_, ?_⟩
  · refine hbt.within hct (fun x => (hbinds hb hc x).mp) fun e he x hx => ?_
    have hagrees := h.agrees hb (hmeets.mpr (h'.meets hc)) x (Binding.binds_iff.mpr ⟨e, he, hx⟩)
    rwa [hbt.assignment_eq he hx] at hagrees
  · refine hct.within hbt (fun x => (hbinds hb hc x).mpr) fun e he x hx => ?_
    have hagrees := h'.agrees hc (hmeets.mp (h.meets hb)) x (Binding.binds_iff.mpr ⟨e, he, hx⟩)
    rwa [hct.assignment_eq he hx] at hagrees

theorem checkBind_wellFormed {v : Value} (h : checkBind v = .ok o) :
    ∀ n, o = some n → n.WellFormed := by
  rintro n rfl
  unfold checkBind at h
  split at h
  · cases h
  · split at h
    · rename_i m hm
      cases h
      exact Value.name?_wellFormed (Option.filter_eq_some_iff.mp hm).1
    · cases h

variable {kind : Supplied Kind} {fields bind : Value} {keywords : List (Value × Value)}
variable {guard : Supplied Guard} {p : Pattern}

/-- The matcher of a declared pattern decides what its terms mean, for every fact that can be read
throughout. A declaration with the terms in another order, at any depth, accepts the same facts, and
what it binds is equal. -/
theorem declare_decides (h : declare kind fields keywords guard bind = .ok p)
    (hkind : Kind.check kind = .ok k) (hbind : checkBind bind = .ok o)
    (hfields : givenTerms fields = .ok es)
    (hnames : ∀ n ∈ variablesOf (Assoc.update es keywords), n.WellFormed) (hfact : fact.Legible) :
    Decides p.matcher k (Assoc.update es keywords) o fact ∧
    ∀ fields' keywords' guard' p' es', declare kind fields' keywords' guard' bind = .ok p' →
      givenTerms fields' = .ok es' →
      Reordered (Assoc.update es keywords) (Assoc.update es' keywords') →
      ((∃ b, Gives p.matcher fact b) ↔ ∃ c, Gives p'.matcher fact c) ∧
      ∀ b c, Gives p.matcher fact b → Gives p'.matcher fact c →
        (Value.map b == Value.map c) = true := by
  have hdecides {fields keywords guard p es} (h : declare kind fields keywords guard bind = .ok p)
      (hfields : givenTerms fields = .ok es)
      (hnames : ∀ n ∈ variablesOf (Assoc.update es keywords), n.WellFormed) :
      Decides p.matcher k (Assoc.update es keywords) o fact := by
    obtain ⟨-, k', hk, o', ho, es', hes, -, hmake⟩ := declare_eq_ok.mp h
    obtain rfl := Except.ok.inj (hkind.symm.trans hk)
    obtain rfl := Except.ok.inj (hbind.symm.trans ho)
    obtain rfl := Except.ok.inj (hfields.symm.trans hes)
    rw [make_eq_ok hmake]
    exact matcherOf_decides hnames (checkBind_wellFormed hbind) hfact
  refine ⟨hdecides h hfields hnames, fun fields' keywords' guard' p' es' h' hfields' hes => ?_⟩
  refine (hdecides h hfields hnames).reordered (hdecides h' hfields' fun n hn => ?_) hes
  exact hnames n (hes.mem_variablesOf.mpr hn)

def Sample.owned : List (Value × Value) :=
  [(.text "user", .map [(.text "id", .var (.ofText "x")), (.text "status", .text "vip")]),
    (.text "owner", .var (.ofText "x"))]

/-- The same terms in another order, those for the user included. -/
def Sample.ownedBackwards : List (Value × Value) :=
  [(.text "owner", .var (.ofText "x")),
    (.text "user", .map [(.text "status", .text "vip"), (.text "id", .var (.ofText "x"))])]

/-- An order whose owner and whose user are one and the same number, written in two ways. -/
def Sample.owning : Value :=
  .map [(.text "user", .map [(.text "id", .int 1), (.text "status", .text "vip")]),
    (.text "owner", .bool true), (.text "total", .none)]

theorem Sample.owning_regular : Sample.owning.Regular := by
  have huser : (Value.map [(.text "id", .int 1), (.text "status", .text "vip")]).Regular :=
    (Value.fields_regular [("id", .int 1), ("status", .text "vip")] (by simp)
      (by simp [Value.regular_int, Value.regular_text])).1
  exact (Value.fields_regular [("user", _), ("owner", .bool true), ("total", .none)] (by simp)
    (by simp [huser, Value.regular_bool, Value.regular_none])).1

theorem Sample.owned_reordered :
    Reordered (Sample.owned ++ [(.text "total", .any)])
      (Sample.ownedBackwards ++ [(.text "total", .any)]) :=
  .trans (@Reordered.inside [] _ _ _ _ (.perm (.swap _ _ []))) (.perm (.swap _ _ _))

/-- A variable is bound where the terms first come to it, so the order decides which of two equal
values it has. -/
theorem declare_decides_mixed : ∃ p q b c,
    declare (.other .none) (.map Sample.owned) [(.text "total", .any)] (.other .none)
      (.text "whole") = .ok p ∧
    declare (.other .none) (.map Sample.ownedBackwards) [(.text "total", .any)] (.other .none)
      (.text "whole") = .ok q ∧
    Sample.owning.Legible ∧
    Decides p.matcher .anything (Sample.owned ++ [(.text "total", .any)]) (some (.ofText "whole"))
      Sample.owning ∧
    Gives p.matcher Sample.owning b ∧ b.read "x" = .ok (.int 1) ∧
    Gives q.matcher Sample.owning c ∧ c.read "x" = .ok (.bool true) ∧
    (Value.map b == Value.map c) = true := by
  have hlegible := Sample.owning_regular.legible
  have hp : declare (.other .none) (.map Sample.owned) [(.text "total", .any)] (.other .none)
      (.text "whole") = .ok ⟨matcherOf .anything (Sample.owned ++ [(.text "total", .any)])
        (some (.ofText "whole")), none⟩ := rfl
  have hq : declare (.other .none) (.map Sample.ownedBackwards) [(.text "total", .any)]
      (.other .none) (.text "whole") = .ok ⟨matcherOf .anything
        (Sample.ownedBackwards ++ [(.text "total", .any)]) (some (.ofText "whole")), none⟩ := rfl
  have hnames : ∀ n ∈ variablesOf (Assoc.update Sample.owned [(.text "total", .any)]),
      n.WellFormed := by
    have hvars : variablesOf (Assoc.update Sample.owned [(.text "total", .any)]) =
      [.ofText "x", .ofText "x"] := rfl
    rw [hvars]
    simp [Name.WellFormed, Name.value, Name.ofText, Value.text?]
  obtain ⟨hdecides, hsame⟩ := declare_decides hp rfl rfl rfl hnames hlegible
  have hb : Gives (matcherOf .anything (Sample.owned ++ [(.text "total", .any)])
    (some (.ofText "whole"))) Sample.owning
      [(.text "x", .int 1), (.text "whole", Sample.owning)] := rfl
  have hc : Gives (matcherOf .anything (Sample.ownedBackwards ++ [(.text "total", .any)])
    (some (.ofText "whole"))) Sample.owning
      [(.text "x", .bool true), (.text "whole", Sample.owning)] := rfl
  have hequal := (hsame _ _ _ _ _ hq rfl Sample.owned_reordered).2 _ _ hb hc
  exact ⟨_, _, _, _, hp, hq, hlegible, hdecides, hb, rfl, hc, rfl, hequal⟩

end Pattern

end RuleEngine
