import RuleEngine.Proofs.Fact.Key
import RuleEngine.Proofs.Memory.Edit

/-!
# The identities in a memory

Entries are found by equality of identities, so a memory is only a map if that equality is an
equivalence on the identities in it. Those of proper facts are proper (`Fact.key_proper`), and then
no two entries answer to one identity.

* `IsKeyed`: the identities are proper and different, and each is that of the fact under it.
  `IsKeyed.edit`: every change keeps it.
* `Edit.reported`, `Edit.untouched`, `Edit.holds_iff`: what a change reports, what it leaves alone,
  and what is there afterwards.
-/

namespace RuleEngine.Memory

variable {m n : Memory} {c : Change} {k k' : FactKey} {r : Option FactKey}

/-- The identities are proper and pairwise different, and each is that of the fact under it. -/
structure IsKeyed (m : Memory) : Prop where
  proper : ∀ k ∈ m.keys, k.value.Proper
  distinct : m.keys.Pairwise fun k l => (k == l) = false
  keyed : ∀ e ∈ m.entries, ∃ k, Fact.key e.2 = .ok k ∧ (e.1 == k) = true

theorem empty_isKeyed : empty.IsKeyed :=
  ⟨fun _ h => (nomatch h), .nil, fun _ h => (nomatch h)⟩

theorem join {l : FactKey} (hk : k.value.Proper) (hl : l.value.Proper)
    (h : (k == k') = true) (h' : (l == k') = true) : (k == l) = true :=
  hk.isSteady.join hl.isSteady h h'

variable {as bs : List (FactKey × Value)} {v : Value}

/-- No other entry is stored under an identity that some entry is stored under. -/
theorem IsKeyed.other (hm : m.IsKeyed) (hs : m.entries = as ++ (k', v) :: bs)
    (hk : (k' == k) = true) : ∀ e ∈ as ++ bs, (e.1 == k) = false := by
  intro e he
  obtain ⟨hproper, hdistinct, -⟩ := hm
  rw [keys, hs, List.map_append, List.map_cons] at hproper hdistinct
  obtain ⟨-, hcons, hacross⟩ := List.pairwise_append.mp hdistinct
  have hk' : k'.value.Proper := hproper k' (by simp)
  have hproper' : e.1.value.Proper := by
    refine hproper e.1 ?_
    rcases List.mem_append.mp he with he | he
    · exact List.mem_append_left _ (List.mem_map_of_mem he)
    · exact List.mem_append_right _ (List.mem_cons_of_mem _ (List.mem_map_of_mem he))
  refine Bool.eq_false_iff.mpr fun hek => ?_
  rcases List.mem_append.mp he with he | he
  · have hne := hacross e.1 (List.mem_map_of_mem he) k' List.mem_cons_self
    rw [join hproper' hk' hek hk] at hne
    cases hne
  · have hne := (List.pairwise_cons.mp hcons).1 e.1 (List.mem_map_of_mem he)
    rw [join hk' hproper' hk hek] at hne
    cases hne

/-- An identity that is not held differs from all that are. -/
theorem not_holds_iff : ¬ m.Holds k ↔ ∀ l ∈ m.keys, (l == k) = false := by
  simp [Holds, keys]

theorem IsKeyed.append {fact : Value} (hm : m.IsKeyed) (hnew : ¬ m.Holds k)
    (hkey : Fact.key fact = .ok k) (hproper : k.value.Proper) :
    IsKeyed ⟨m.entries ++ [(k, fact)]⟩ := by
  have hkeys : keys ⟨m.entries ++ [(k, fact)]⟩ = m.keys ++ [k] := by simp [keys]
  refine ⟨?_, ?_, ?_⟩
  · rw [hkeys]
    intro l hl
    rcases List.mem_append.mp hl with hl | hl
    · exact hm.proper l hl
    · rw [List.mem_singleton.mp hl]
      exact hproper
  · rw [hkeys]
    refine List.pairwise_append.mpr ⟨hm.distinct, List.pairwise_singleton _ _, ?_⟩
    intro l hl l' hl'
    rw [List.mem_singleton.mp hl']
    exact not_holds_iff.mp hnew l hl
  · intro e he
    rcases List.mem_append.mp he with he | he
    · exact hm.keyed e he
    · rw [List.mem_singleton.mp he]
      exact ⟨k, hkey, hproper.refl⟩

/-- The identity that a proper pair of a kind and an id stands for is proper. -/
theorem pairKey_proper {t : Value} (hp : t.Proper) (hw : t.WellFormed)
    (h : pairKey? t = .ok (some k)) : k.value.Proper := by
  unfold pairKey? at h
  split at h
  · rename_i kind id
    have hid : id ∈ [kind, id] := by simp
    cases hname : kind.name? with
    | none => simp [hname] at h
    | some n =>
      simp only [hname] at h
      cases hof : FactKey.ofId n.value id with
      | error f => simp [hof, Except.map] at h
      | ok l =>
        simp only [hof, Except.map, Except.ok.injEq, Option.some.injEq] at h
        rw [← h]
        exact FactKey.ofId_proper (Value.name_proper n) (hp.of_tuple id hid)
          (hw.of_tuple id hid) hof
  · cases h

/-- The identity a change with a proper argument is aimed at is proper. -/
theorem aim_proper (hp : c.argument.Proper) (hw : c.argument.WellFormed)
    (haim : c.aim m = .ok k) : k.value.Proper := by
  cases c with
  | assert fact | upsert fact => exact Fact.key_proper hp hw haim
  | retract t =>
    simp only [Change.aim, target, bind_eq_ok] at haim
    obtain ⟨o, ho, haim⟩ := haim
    cases o with
    | none => exact Fact.key_proper hp hw haim
    | some l =>
      simp only [bind_eq_ok] at haim
      obtain ⟨known, -, haim⟩ := haim
      cases known with
      | true =>
        obtain rfl := pure_eq_ok.mp haim
        exact pairKey_proper hp hw ho
      | false => exact Fact.key_proper hp hw haim

theorem IsKeyed.edit (hm : m.IsKeyed) (haim : c.aim m = .ok k) (hp : c.argument.Proper)
    (hw : c.argument.WellFormed) (h : Edit m k c n r) : n.IsKeyed := by
  cases h with
  | known | equal | absent => exact hm
  | asserted hnew => exact hm.append hnew haim (Fact.key_proper hp hw haim)
  | inserted hnew => exact hm.append hnew haim (Fact.key_proper hp hw haim)
  | @replaced fact old as bs k' hs hk hne =>
    have hkeys : keys ⟨as ++ (k', fact) :: bs⟩ = m.keys := by simp [keys, hs]
    refine ⟨hkeys ▸ hm.proper, hkeys ▸ hm.distinct, ?_⟩
    intro e he
    rcases List.mem_append.mp he with he | he
    · exact hm.keyed e (hs ▸ List.mem_append_left _ he)
    · rcases List.mem_cons.mp he with rfl | he
      · exact ⟨k, haim, hk⟩
      · exact hm.keyed e (hs ▸ List.mem_append_right _ (List.mem_cons_of_mem _ he))
  | @removed _ old as bs k' hs hk =>
    have hsub : (as ++ bs).Sublist m.entries := by
      rw [hs]
      exact (List.sublist_cons_self _ _).append_left _
    have hkeys := hsub.map (·.1)
    exact ⟨fun l hl => hm.proper l (hkeys.subset hl), hm.distinct.sublist hkeys,
      fun e he => hm.keyed e (hsub.subset he)⟩

theorem IsKeyed.holds (hm : m.IsKeyed) {e : FactKey × Value} (he : e ∈ m.entries) : m.Holds e.1 :=
  ⟨e, he, (hm.proper e.1 (List.mem_map_of_mem he)).refl⟩

/-- Of things that differ pairwise, but no two of which differ, there is at most one. -/
theorem length_le_one {α : Type} {R : α → α → Prop} {xs : List α} (h : xs.Pairwise R)
    (hn : ∀ x ∈ xs, ∀ y ∈ xs, ¬ R x y) : xs.length ≤ 1 := by
  match xs, h with
  | [], _ | [_], _ => simp
  | x :: y :: _, h =>
    have hxy := (List.pairwise_cons.mp h).1 y List.mem_cons_self
    exact absurd hxy (hn x (by simp) y (by simp))

/-- No two entries are stored under identities that equal a third one. -/
theorem IsKeyed.filter_length_le_one (hm : m.IsKeyed) (k : FactKey) :
    (m.entries.filter fun e => e.1 == k).length ≤ 1 := by
  have hdistinct : m.entries.Pairwise fun e f => (e.1 == f.1) = false :=
    List.pairwise_map.mp hm.distinct
  refine length_le_one (hdistinct.filter _) ?_
  intro e he f hf hne
  obtain ⟨he, hek⟩ := List.mem_filter.mp he
  obtain ⟨hf, hfk⟩ := List.mem_filter.mp hf
  have hjoin := join (hm.proper _ (List.mem_map_of_mem he))
    (hm.proper _ (List.mem_map_of_mem hf)) hek hfk
  rw [hjoin] at hne
  cases hne

/-! ## What a change reports -/

/-- The same entries in the same places, as far as equality of values can tell. -/
def Same (m n : Memory) : Prop :=
  List.Forall₂ (fun e f => (e.1 == f.1) = true ∧ (e.2 == f.2) = true) m.entries n.entries

theorem forall₂_middle {α : Type} {R : α → α → Prop} {xs ys zs : List α} {x y : α}
    (h : List.Forall₂ R (xs ++ x :: ys) (xs ++ y :: zs)) : R x y := by
  induction xs with
  | nil => exact (List.forall₂_cons.mp h).1
  | cons _ xs ih => exact ih (List.forall₂_cons.mp h).2

/-- A change reports the identity it is aimed at if it changed something, and nothing if it left
everything as it was. -/
theorem Edit.reported (h : Edit m k c n r) : (r = none ∧ n = m) ∨ (r = some k ∧ ¬ m.Same n) := by
  cases h with
  | known | equal | absent => exact .inl ⟨rfl, rfl⟩
  | asserted | inserted =>
    refine .inr ⟨rfl, fun hsame => ?_⟩
    have hlen := hsame.length_eq
    simp at hlen
  | replaced hs _ hne =>
    refine .inr ⟨rfl, fun hsame => ?_⟩
    rw [Same, hs] at hsame
    rw [(forall₂_middle hsame).2] at hne
    cases hne
  | removed hs =>
    refine .inr ⟨rfl, fun hsame => ?_⟩
    have hlen := hsame.length_eq
    simp [hs] at hlen

/-- A change touches no entry but those of the identity it is aimed at. -/
theorem Edit.untouched (hk : (k == k) = true) (h : Edit m k c n r) :
    n.entries.filter (fun e => !(e.1 == k)) = m.entries.filter fun e => !(e.1 == k) := by
  cases h with
  | known | equal | absent => rfl
  | asserted | inserted => simp [List.filter_append, hk]
  | replaced hs hkey => simp [hs, List.filter_append, hkey]
  | removed hs hkey => simp [hs, List.filter_append, hkey]

theorem mem_middle {α : Type} {xs ys : List α} {x : α} : x ∈ xs ++ x :: ys :=
  List.mem_append_right xs List.mem_cons_self

/-- After an assertion or an upsert the identity is there, after a retraction it is not. -/
theorem Edit.holds_iff (hm : m.IsKeyed) (hk : (k == k) = true) (h : Edit m k c n r) :
    n.Holds k ↔ ∀ target, c ≠ .retract target := by
  cases h with
  | known hheld => exact iff_of_true hheld fun _ => by simp
  | equal hs hkey => exact iff_of_true ⟨_, hs ▸ mem_middle, hkey⟩ fun _ => by simp
  | absent hnew => exact iff_of_false hnew fun h => h _ rfl
  | asserted | inserted => exact iff_of_true ⟨_, mem_middle, hk⟩ fun _ => by simp
  | replaced _ hkey => exact iff_of_true ⟨_, mem_middle, hkey⟩ fun _ => by simp
  | removed hs hkey =>
    refine iff_of_false ?_ fun h => h _ rfl
    intro ⟨e, he, hek⟩
    rw [hm.other hs hkey e he] at hek
    cases hek

end RuleEngine.Memory
