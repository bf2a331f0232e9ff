import RuleEngine.Assoc

/-!
# Association lists

What is stored under a key is the value of the first entry whose key equals it. No law of the
equality of keys is used: where an equality is no equivalence, a key may find an entry under another
key, but it still finds the first one.

* `lookup_eq_none`, `mem_of_lookup`, `split_of_lookup`: when a key finds nothing, and where it finds
  what it finds.
* `lookup_of_mem`: what is found where keys differ.
* `insert_of_not_contains`, `insert_split`, `erase_split`: a new entry goes to the end, a stored one
  is replaced or taken out in its place.
* `insert_keys`, `update_keys`: the keys after an insertion or an update.
* `insert_distinct`, `update_distinct`: keys that differ go on to differ.
-/

namespace RuleEngine.Assoc

variable {κ α : Type} [BEq κ] {k : κ} {v : α} {es fs : List (κ × α)}

theorem lookup_eq_none : lookup k es = none ↔ ∀ e ∈ es, (e.1 == k) = false := by
  induction es with
  | nil => simp [lookup]
  | cons e es ih =>
    rw [lookup, List.forall_mem_cons]
    cases he : e.1 == k <;> simp [ih]

theorem mem_of_lookup (h : lookup k es = some v) :
    ∃ e ∈ es, (e.1 == k) = true ∧ e.2 = v := by
  induction es with
  | nil => cases h
  | cons e es ih =>
    rw [lookup] at h
    split at h
    · rename_i he
      exact ⟨e, List.mem_cons_self, he, Option.some.inj h⟩
    · obtain ⟨f, hf, hk, hv⟩ := ih h
      exact ⟨f, List.mem_cons_of_mem _ hf, hk, hv⟩

theorem lookup_append : lookup k (es ++ fs) = (lookup k es).or (lookup k fs) := by
  induction es with
  | nil => rfl
  | cons e es ih =>
    rw [List.cons_append, lookup, lookup]
    split
    · rfl
    · exact ih

/-- Of entries under different keys, each is found under its own key. -/
theorem lookup_of_mem {e : κ × α} (h : es.Pairwise fun e f => (e.1 == f.1) = false) (he : e ∈ es)
    (hk : (e.1 == e.1) = true) : lookup e.1 es = some e.2 := by
  obtain ⟨as, bs, rfl⟩ := List.append_of_mem he
  have hfirst : lookup e.1 as = none := lookup_eq_none.mpr fun a ha =>
    (List.pairwise_append.mp h).2.2 a ha e List.mem_cons_self
  rw [lookup_append, hfirst, Option.none_or, lookup, if_pos hk]

theorem contains_eq_false : contains k es = false ↔ ∀ e ∈ es, (e.1 == k) = false := by
  simp [contains]

/-- Leaving out entries under other keys does not change what is stored under a key. -/
theorem lookup_filter {p : κ × α → Bool} (h : ∀ e ∈ es, (e.1 == k) = true → p e = true) :
    lookup k (es.filter p) = lookup k es := by
  induction es with
  | nil => rfl
  | cons e es ih =>
    obtain ⟨he, hes⟩ := List.forall_mem_cons.mp h
    rw [List.filter_cons, lookup]
    cases hp : p e with
    | true => rw [if_pos rfl, lookup, ih hes]
    | false =>
      have hk : (e.1 == k) = false := Bool.eq_false_iff.mpr fun hk => by simp [he hk] at hp
      rw [if_neg (by simp), if_neg (by simp [hk]), ih hes]

theorem contains_iff : contains k es = true ↔ ∃ e ∈ es, (e.1 == k) = true := by
  simp only [contains, List.any_eq_true]

theorem lookup_isSome : (lookup k es).isSome = contains k es := by
  cases hl : lookup k es with
  | none => exact (contains_eq_false.mpr (lookup_eq_none.mp hl)).symm
  | some v =>
    obtain ⟨e, he, hk, -⟩ := mem_of_lookup hl
    exact (contains_iff.mpr ⟨e, he, hk⟩).symm

/-- A new key goes behind all entries. -/
theorem insert_of_not_contains (h : contains k es = false) : insert k v es = es ++ [(k, v)] := by
  induction es with
  | nil => rfl
  | cons e es ih =>
    obtain ⟨he, hes⟩ := List.forall_mem_cons.mp (contains_eq_false.mp h)
    have hrest := ih (contains_eq_false.mpr hes)
    simp [insert, he, hrest]

theorem split_of_lookup (h : lookup k es = some v) : ∃ as k' bs, es = as ++ (k', v) :: bs ∧
    (k' == k) = true ∧ ∀ a ∈ as, (a.1 == k) = false := by
  induction es with
  | nil => cases h
  | cons e es ih =>
    rw [lookup] at h
    by_cases he : (e.1 == k) = true
    · rw [if_pos he] at h
      cases h
      exact ⟨[], e.1, es, rfl, he, fun _ ha => nomatch ha⟩
    · rw [if_neg he] at h
      obtain ⟨as, k', bs, rfl, hk, has⟩ := ih h
      refine ⟨e :: as, k', bs, rfl, hk, List.forall_mem_cons.mpr ⟨?_, has⟩⟩
      exact Bool.eq_false_iff.mpr he

variable {as bs : List (κ × α)} {k' : κ} {w : α}

theorem insert_split (hk : (k' == k) = true) (has : ∀ a ∈ as, (a.1 == k) = false) :
    insert k v (as ++ (k', w) :: bs) = as ++ (k', v) :: bs := by
  induction as with
  | nil => simp [insert, hk]
  | cons a as ih =>
    obtain ⟨ha, has⟩ := List.forall_mem_cons.mp has
    simp [insert, ha, ih has]

theorem erase_split (hk : (k' == k) = true) (has : ∀ a ∈ as, (a.1 == k) = false) :
    erase k (as ++ (k', w) :: bs) = as ++ bs := by
  induction as with
  | nil => simp [erase, hk]
  | cons a as ih =>
    obtain ⟨ha, has⟩ := List.forall_mem_cons.mp has
    simp [erase, ha, ih has]

theorem erase_append (h : contains k es = true) : erase k (es ++ fs) = erase k es ++ fs := by
  obtain ⟨v, hv⟩ := Option.isSome_iff_exists.mp (lookup_isSome.trans h)
  obtain ⟨as, k', bs, rfl, hk, has⟩ := split_of_lookup hv
  rw [List.append_assoc, List.cons_append, erase_split hk has, erase_split hk has,
    List.append_assoc]

/-! ## Entries after insertions -/

/-- Keys and values after an insertion are those from before and the new ones. -/
theorem insert_forall {P : κ → Prop} {Q : α → Prop} (h : ∀ e ∈ es, P e.1 ∧ Q e.2) (hk : P k)
    (hv : Q v) : ∀ e ∈ insert k v es, P e.1 ∧ Q e.2 := by
  induction es with
  | nil => exact List.forall_mem_singleton.mpr ⟨hk, hv⟩
  | cons e es ih =>
    obtain ⟨he, hes⟩ := List.forall_mem_cons.mp h
    rw [insert]
    split
    · exact List.forall_mem_cons.mpr ⟨⟨he.1, hv⟩, hes⟩
    · exact List.forall_mem_cons.mpr ⟨he, ih hes⟩

/-- Keys and values after an update are those from before and those that come with it. -/
theorem update_forall {P : κ → Prop} {Q : α → Prop} (h : ∀ e ∈ es, P e.1 ∧ Q e.2)
    (hf : ∀ f ∈ fs, P f.1 ∧ Q f.2) : ∀ e ∈ update es fs, P e.1 ∧ Q e.2 := by
  unfold update
  induction fs generalizing es with
  | nil => exact h
  | cons f fs ih =>
    obtain ⟨hhead, htail⟩ := List.forall_mem_cons.mp hf
    exact ih (insert_forall h hhead.1 hhead.2) htail

theorem update_keys_forall {P : κ → Prop} (h : ∀ e ∈ es, P e.1) (hf : ∀ f ∈ fs, P f.1) :
    ∀ e ∈ update es fs, P e.1 := fun e he =>
  (update_forall (Q := fun _ => True) (fun e he => ⟨h e he, trivial⟩)
    (fun f hf' => ⟨hf f hf', trivial⟩) e he).1

/-! ## Keys after insertions -/

theorem insert_keys (h : contains k es = true) : (insert k v es).map (·.1) = es.map (·.1) := by
  obtain ⟨w, hw⟩ := Option.isSome_iff_exists.mp (lookup_isSome.trans h)
  obtain ⟨as, k', bs, rfl, hk, has⟩ := split_of_lookup hw
  rw [insert_split hk has]
  simp

theorem contains_congr (h : fs.map (·.1) = es.map (·.1)) : contains k fs = contains k es := by
  have hkeys (es : List (κ × α)) : contains k es = (es.map (·.1)).any (· == k) := by
    simp [contains, List.any_map, Function.comp_def]
  rw [hkeys, hkeys, h]

/-- An update keeps the keys that are stored and puts the others behind them, in order. -/
theorem update_keys (h : fs.Pairwise fun e f => (e.1 == f.1) = false) : (update es fs).map (·.1) =
    es.map (·.1) ++ (fs.filter fun f => !contains f.1 es).map (·.1) := by
  unfold update
  induction fs generalizing es with
  | nil => simp
  | cons f fs ih =>
    obtain ⟨hf, hfs⟩ := List.pairwise_cons.mp h
    rw [List.foldl_cons, ih hfs]
    cases hc : contains f.1 es with
    | true =>
      have hkeys : (insert f.1 f.2 es).map (·.1) = es.map (·.1) := insert_keys hc
      simp only [hkeys, contains_congr hkeys, List.filter_cons, hc]
      rfl
    | false =>
      have hnew : ∀ g ∈ fs, contains g.1 (es ++ [(f.1, f.2)]) = contains g.1 es := by
        intro g hg
        simp [contains, hf g hg]
      have hfilter : (fs.filter fun g => !contains g.1 (es ++ [(f.1, f.2)])) =
          fs.filter fun g => !contains g.1 es := by
        refine List.filter_congr fun g hg => ?_
        rw [hnew g hg]
      rw [insert_of_not_contains hc, hfilter, List.filter_cons, hc]
      simp

/-! ## Entries with different keys -/

theorem distinct_of_keys (hk : fs.map (·.1) = es.map (·.1))
    (h : es.Pairwise fun e f => (e.1 == f.1) = false) :
    fs.Pairwise fun e f => (e.1 == f.1) = false := by
  have hkeys : (es.map (·.1)).Pairwise fun k l => (k == l) = false := List.pairwise_map.mpr h
  rw [← hk] at hkeys
  exact List.pairwise_map.mp hkeys

/-- Keys that differ from the later ones still do after an insertion. -/
theorem insert_distinct (h : es.Pairwise fun e f => (e.1 == f.1) = false) :
    (insert k v es).Pairwise fun e f => (e.1 == f.1) = false := by
  cases hc : contains k es with
  | false =>
    rw [insert_of_not_contains hc]
    refine List.pairwise_append.mpr ⟨h, List.pairwise_singleton _ _, ?_⟩
    intro e he f hf
    rw [List.mem_singleton.mp hf]
    exact contains_eq_false.mp hc e he
  | true => exact distinct_of_keys (insert_keys hc) h

theorem update_distinct (h : es.Pairwise fun e f => (e.1 == f.1) = false) :
    (update es fs).Pairwise fun e f => (e.1 == f.1) = false := by
  unfold update
  induction fs generalizing es with
  | nil => exact h
  | cons f fs ih => exact ih (insert_distinct h)

/-- New entries whose keys differ pairwise are all put in, in order. -/
theorem update_append (h : (es ++ fs).Pairwise fun e f => (e.1 == f.1) = false) :
    update es fs = es ++ fs := by
  unfold update
  induction fs generalizing es with
  | nil => exact (List.append_nil es).symm
  | cons f fs ih =>
    have hnew : contains f.1 es = false := by
      rw [contains_eq_false]
      exact fun e he => (List.pairwise_append.mp h).2.2 e he f List.mem_cons_self
    rw [List.foldl_cons, insert_of_not_contains hnew, ih, List.append_assoc, List.singleton_append]
    rwa [List.append_assoc, List.singleton_append]

theorem update_eq_self (h : es.Pairwise fun e f => (e.1 == f.1) = false) : update [] es = es :=
  update_append h

end RuleEngine.Assoc
