import RuleEngine.Options.Build
import RuleEngine.Proofs.Assoc
import RuleEngine.Proofs.Binding.Variables
import RuleEngine.Proofs.Schema.Fault

/-!
# Options in layers

Overrides may be given one layer after the other or all at once. What options are read from is a map
of names, so a layer decides what stands under the names it has and leaves the others alone
(`lookup_update`), and names that no option has are flaws in whatever layer they come
(`extras_update`). In between, the options are built and then read again from what they were built
to. That is a fixed point of reading them (`read_entries`), so it makes no difference either
(`read_update`).

* `build_layered`: two layers of overrides against one, and the errors there can be.
-/

namespace RuleEngine.Options

variable {base : OptionsBase} {a b es es' fs : OptionEntries} {k : Value} {m n : String}
variable {p : Options}

/-! ## Names -/

def Named (es : OptionEntries) : Prop := ∀ e ∈ es, ∃ n, e.1.text? = some n

def Distinct (es : OptionEntries) : Prop := es.Pairwise fun e f => (e.1 == f.1) = false

theorem Named.update (ha : Named a) (hb : Named b) : Named (Assoc.update a b) :=
  Assoc.update_keys_forall (P := fun k : Value => ∃ n, k.text? = some n) ha hb

theorem eqv_iff_text {k l : Value} (hl : l.text? = some n) :
    (k == l) = true ↔ k.text? = some n := by
  refine ⟨fun h => Value.text_of_eq h hl, fun hk => ?_⟩
  exact (Value.eqv_of_atom (Value.text_eq_some.mp hk)).mpr ⟨by simp, Value.text_eq_some.mp hl⟩

theorem lookup_insert (hk : k.text? = some m) (x : Supplied Observer) :
    Assoc.lookup (.text n) (Assoc.insert k x es) =
      if m = n then some x else Assoc.lookup (.text n) es := by
  induction es with
  | nil =>
    simp only [Assoc.insert, Assoc.lookup, Value.eq_text, hk, Option.some.injEq]
  | cons e es ih =>
    rw [Assoc.insert]
    by_cases he : e.1.text? = some m
    · simp only [(eqv_iff_text hk).mpr he, if_true, Assoc.lookup, Value.eq_text, he,
        Option.some.injEq]
      split <;> rfl
    · have hne : (e.1 == k) = false := Bool.eq_false_iff.mpr (mt (eqv_iff_text hk).mp he)
      simp only [hne, Bool.false_eq_true, if_false, Assoc.lookup, Value.eq_text, ih]
      split
      · rename_i hen
        have hmn : m ≠ n := fun h => he (h ▸ hen)
        rw [if_neg hmn]
      · rfl

/-- What a layer has under a name counts, and else what was there before. -/
theorem lookup_update (hfs : Named fs) (hd : Distinct fs) :
    Assoc.lookup (.text n) (Assoc.update es fs) =
      (Assoc.lookup (.text n) fs).or (Assoc.lookup (.text n) es) := by
  unfold Assoc.update
  induction fs generalizing es with
  | nil => rfl
  | cons f fs ih =>
    obtain ⟨⟨m, hm⟩, hfs⟩ := List.forall_mem_cons.mp hfs
    obtain ⟨hf, hd⟩ := List.pairwise_cons.mp hd
    rw [List.foldl_cons, ih hfs hd, lookup_insert hm, Assoc.lookup]
    simp only [Value.eq_text, hm, Option.some.injEq]
    split
    · rename_i hmn
      -- no later entry has the name
      have hnone : Assoc.lookup (.text n) fs = none := by
        refine Assoc.lookup_eq_none.mpr fun g hg => Bool.eq_false_iff.mpr fun hgn => ?_
        have hfg := (eqv_iff_text (Value.eq_text.mp hgn)).mpr (hmn ▸ hm)
        exact absurd (hf g hg) (by simp [hfg])
      rw [hnone]
      rfl
    · rfl

/-! ## Names that no option has -/

/-- The flaw that a name is if no option has it. -/
def extra? (k : Value) : Option Detail :=
  match k.text? with
  | some s => if names.contains s then none else some ⟨[.field s], .extra⟩
  | none => some ⟨[Schema.keyStep k], .keyType⟩

def extras (es : OptionEntries) : List Detail := (es.map (·.1)).filterMap extra?

theorem undeclared_eq (es : OptionEntries) :
    Schema.undeclared names (es.map fun e => (e.1, .none)) = extras es := by
  rw [Schema.undeclared, extras, List.filterMap_map, List.filterMap_map]
  rfl

theorem extra?_eq_none : extra? k = none ↔ ∃ n ∈ names, k.text? = some n := by
  unfold extra?
  cases k.text? with
  | none => simp
  | some n => simp

theorem extras_eq_nil : extras es = [] ↔ ∀ e ∈ es, extra? e.1 = none := by
  rw [extras, List.filterMap_eq_nil_iff, List.forall_mem_map]

theorem extras_update (hes : extras es = []) (hd : Distinct fs) :
    extras (Assoc.update es fs) = extras fs := by
  have hold : ∀ f ∈ fs, Assoc.contains f.1 es = true → extra? f.1 = none := by
    intro f _ hc
    obtain ⟨e, he, hef⟩ := Assoc.contains_iff.mp hc
    obtain ⟨n, hn, hen⟩ := extra?_eq_none.mp (extras_eq_nil.mp hes e he)
    have hfn := ((Value.eqv_of_atom (Value.text_eq_some.mp hen)).mp hef).2
    exact extra?_eq_none.mpr ⟨n, hn, Value.text_eq_some.mpr hfn⟩
  change ((Assoc.update es fs).map (·.1)).filterMap extra? = _
  rw [Assoc.update_keys hd, List.filterMap_append]
  change extras es ++ extras (fs.filter fun f => !Assoc.contains f.1 es) = extras fs
  rw [hes, List.nil_append, extras, extras, List.filterMap_map, List.filterMap_map,
    List.filterMap_filter]
  refine List.filterMap_congr fun f hf => ?_
  cases hc : Assoc.contains f.1 es with
  | false => rfl
  | true => exact (hold f hf hc).symm

/-- In what has no such flaw, neither the base nor the layer has any. -/
theorem extras_of_update (h : extras (Assoc.update es fs) = []) (hd : Distinct fs) :
    extras es = [] ∧ extras fs = [] := by
  have hes : extras es = [] := by
    change ((Assoc.update es fs).map (·.1)).filterMap extra? = [] at h
    rw [Assoc.update_keys hd, List.filterMap_append] at h
    exact (List.append_eq_nil_iff.mp h).1
  exact ⟨hes, (extras_update hes hd).symm.trans h⟩

/-! ## Reading entries -/

theorem read_eq (es : OptionEntries) : read es =
    (Options.mk <$> part "pure" (plain Schema.flag .flagType) false es
      <*> part "recency" (plain (Schema.choice recencies) .notAlternative) .lifo es
      <*> part "max_steps" (plain (Schema.optional Schema.natural) .integerType) none es
      <*> part "observer" readObserver none es).withFlaws (extras es) := by
  rw [read, undeclared_eq]

section Part

variable {α : Type} {r : Supplied Observer → Checked α} {d : α}

theorem part_congr (h : Assoc.lookup (.text n) es = Assoc.lookup (.text n) es') :
    part n r d es = part n r d es' := by
  rw [part, part, h]

/-- A part that is read alike from two maps is so too under one more layer. -/
theorem part_update (hfs : Named fs) (hd : Distinct fs) (h : part n r d es = part n r d es') :
    part n r d (Assoc.update es fs) = part n r d (Assoc.update es' fs) := by
  cases hf : Assoc.lookup (.text n) fs with
  | some x =>
    refine part_congr ?_
    rw [lookup_update hfs hd, lookup_update hfs hd, hf]
    rfl
  | none =>
    have hbelow (es : OptionEntries) :
        Assoc.lookup (.text n) (Assoc.update es fs) = Assoc.lookup (.text n) es := by
      rw [lookup_update hfs hd, hf, Option.none_or]
    exact (part_congr (hbelow es)).trans (h.trans (part_congr (hbelow es')).symm)

end Part

/-- Options are read exactly if all of their parts are, from entries under no other names. -/
theorem read_eq_ok : read es = .ok p ↔
    part "pure" (plain Schema.flag .flagType) false es = .ok p.pure ∧
    part "recency" (plain (Schema.choice recencies) .notAlternative) .lifo es = .ok p.recency ∧
    part "max_steps" (plain (Schema.optional Schema.natural) .integerType) none es =
      .ok p.maxSteps ∧
    part "observer" readObserver none es = .ok p.observer ∧ extras es = [] := by
  obtain ⟨pure, recency, maxSteps, observer⟩ := p
  rw [read_eq]
  simp only [Checked.withFlaws_eq_ok, Checked.seq_eq_ok, Checked.map_eq_ok]
  constructor
  · rintro ⟨⟨_, _, ⟨_, _, ⟨_, _, ⟨_, hpure, rfl⟩, hrecency, rfl⟩, hsteps, rfl⟩, hobserver, hp⟩,
      hextras⟩
    cases hp
    exact ⟨hpure, hrecency, hsteps, hobserver, hextras⟩
  · rintro ⟨hpure, hrecency, hsteps, hobserver, hextras⟩
    exact ⟨⟨_, _, ⟨_, _, ⟨_, _, ⟨_, hpure, rfl⟩, hrecency, rfl⟩, hsteps, rfl⟩, hobserver, rfl⟩,
      hextras⟩

/-- What is read depends on what stands under the names, and on the names that no option has. -/
theorem read_congr (h : ∀ n, Assoc.lookup (.text n) es = Assoc.lookup (.text n) es')
    (hextras : extras es = extras es') : read es = read es' := by
  rw [read_eq, read_eq, part_congr (h _), part_congr (h _), part_congr (h _), part_congr (h _),
    hextras]

/-- Under a layer, all entries that the same options are read from are alike. -/
theorem read_update (h : read es = .ok p) (h' : read es' = .ok p) (hfs : Named fs)
    (hd : Distinct fs) : read (Assoc.update es fs) = read (Assoc.update es' fs) := by
  obtain ⟨hpure, hrecency, hsteps, hobserver, hextras⟩ := read_eq_ok.mp h
  obtain ⟨hpure', hrecency', hsteps', hobserver', hextras'⟩ := read_eq_ok.mp h'
  rw [read_eq, read_eq, part_update hfs hd (hpure.trans hpure'.symm),
    part_update hfs hd (hrecency.trans hrecency'.symm),
    part_update hfs hd (hsteps.trans hsteps'.symm),
    part_update hfs hd (hobserver.trans hobserver'.symm), extras_update hextras hd,
    extras_update hextras' hd]

/-- Two layers are read like the one that they make together. -/
theorem read_layers (h : extras (Assoc.update es a) = []) (ha : Named a) (hda : Distinct a)
    (hb : Named b) (hdb : Distinct b) :
    read (Assoc.update (Assoc.update es a) b) = read (Assoc.update es (Assoc.update a b)) := by
  have hab : Named (Assoc.update a b) := ha.update hb
  have hdab : Distinct (Assoc.update a b) := Assoc.update_distinct hda
  obtain ⟨hes, hextras⟩ := extras_of_update h hda
  refine read_congr (fun n => ?_) ?_
  · rw [lookup_update hb hdb, lookup_update ha hda, lookup_update hab hdab, lookup_update hb hdb,
      Option.or_assoc]
  · rw [extras_update h hdb, extras_update hes hdab, extras_update hextras hdb]

/-- Options are read back from their own entries. -/
theorem read_entries (p : Options) : read p.entries = .ok p := by
  refine read_eq_ok.mpr ⟨?_, ?_, ?_, ?_, by rw [← undeclared_eq]; rfl⟩
  · obtain ⟨x, _, _, _⟩ := p
    cases x <;> rfl
  · obtain ⟨_, r, _, _⟩ := p
    cases r <;> rfl
  · obtain ⟨_, _, n, _⟩ := p
    cases n with
    | none => rfl
    | some n =>
      have hnatural : Schema.natural (.int n) = .ok n := by
        have hn : ¬ (n : Int) < 0 := by omega
        simp [Schema.natural, Schema.integer, Value.integer?, Checked.andThen, hn]
      change ((Schema.natural (.int n)).map some).under (.field "max_steps") = _
      rw [hnatural]
      rfl
  · obtain ⟨_, _, _, o⟩ := p
    cases o <;> rfl

/-! ## Reading never ends in a fault -/

section Halts

open Checked (HaltsIff)

variable {F : Fault → Prop} {α : Type} {r : Supplied Observer → Checked α}

theorem part_haltsIff (h : ∀ x, HaltsIff F False (r x)) (n : String) (d : α)
    (es : OptionEntries) : HaltsIff F False (part n r d es) := by
  unfold part
  split
  · exact (h _).under _
  · exact .ok _

theorem plain_haltsIff {read : Value → Checked α} (h : ∀ v, HaltsIff F False (read v)) (f : Flaw)
    (x : Supplied Observer) : HaltsIff F False (plain read f x) := by
  cases x with
  | other v => exact h v
  | fit => exact .flaw f

theorem readObserver_haltsIff (x : Supplied Observer) : HaltsIff F False (readObserver x) := by
  unfold readObserver
  repeat' split
  all_goals exact not_false

theorem read_haltsIff (es : OptionEntries) : HaltsIff F False (read es) := by
  have hpure := part_haltsIff (F := F)
    (plain_haltsIff Schema.flag_haltsIff .flagType) "pure" false es
  have hrecency := part_haltsIff (F := F)
    (plain_haltsIff (Schema.choice_haltsIff recencies) .notAlternative) "recency" .lifo es
  have hbudget := plain_haltsIff (F := F) (Schema.optional_haltsIff Schema.natural_haltsIff)
    .integerType
  have hsteps := part_haltsIff hbudget "max_steps" none es
  have hobserver := part_haltsIff (F := F) readObserver_haltsIff "observer" none es
  refine ((((hpure.map _).seq hrecency).seq hsteps).seq hobserver).withFlaws _ |>.congr ?_
  simp

end Halts

/-! ## Building options -/

/-- If the base is a map, its keys are texts. -/
def TextKeys : OptionsBase → Prop
  | .options _ => True
  | .entries es => Named es
  | .value (.map es) => ∀ e ∈ es, ∃ n, e.1.text? = some n
  | .value _ => True

/-- The entries can be handed over as overrides: names that differ, and none of them is the name of
the argument that the base has. -/
structure Keywords (es : OptionEntries) : Prop where
  named : ∀ e ∈ es, ∃ n, e.1.text? = some n ∧ n ≠ "options"
  distinct : Distinct es

theorem Keywords.nil : Keywords [] := ⟨nofun, .nil⟩

theorem Keywords.texts (h : Keywords es) : Named es := fun e he =>
  have ⟨n, hn, _⟩ := h.named e he
  ⟨n, hn⟩

theorem Keywords.update (ha : Keywords a) (hb : Keywords b) : Keywords (Assoc.update a b) where
  named := Assoc.update_keys_forall (P := fun k : Value => ∃ n, k.text? = some n ∧ n ≠ "options")
    ha.named hb.named
  distinct := Assoc.update_distinct ha.distinct

theorem entries_named (p : Options) : Named p.entries := by
  intro e he
  simp only [entries, List.mem_cons, List.not_mem_nil, or_false] at he
  rcases he with rfl | rfl | rfl | rfl <;> exact ⟨_, rfl⟩

theorem TextKeys.named (h : TextKeys base) (hes : baseEntries base = .ok es) : Named es := by
  cases base with
  | options p =>
    cases hes
    exact entries_named p
  | entries fs =>
    cases hes
    exact h
  | value v =>
    cases v with
    | none =>
      cases hes
      exact nofun
    | map fs =>
      cases hes
      intro e he
      obtain ⟨f, hf, rfl⟩ := List.mem_map.mp he
      exact h f hf
    | _ => cases hes

theorem baseEntries_error {e : Error} (h : baseEntries base = .error e) :
    ∃ c, e = .configuration c := by
  cases base with
  | options | entries => cases h
  | value v =>
    cases v with
    | none | map => cases h
    | _ =>
      cases h
      exact ⟨_, rfl⟩

theorem checkReserved_ok (ha : Keywords a) : checkReserved ["options"] a = .ok () := by
  refine forM_eq_ok.mpr fun e he => ?_
  obtain ⟨n, hn, hne⟩ := ha.named e he
  simp [hn, hne]

theorem checkNames_ok (h : Named es) : checkNames es = .ok () := by
  refine forM_eq_ok.mpr fun e he => ?_
  obtain ⟨n, hn⟩ := h e he
  simp [hn]

theorem build_bind (ha : Keywords a) : build base a = (do
    let es := Assoc.update (← baseEntries base) a
    Fault.lift (checkNames es)
    (read es).toExcept (fun ds => .configuration (.invalidOptions ds)) .fault) := by
  rw [build, checkReserved_ok ha]
  rfl

/-- Building options is reading the entries of the base under the overrides. -/
theorem build_eq (hbase : baseEntries base = .ok es) (hes : Named es) (ha : Keywords a) :
    build base a = (read (Assoc.update es a)).toExcept
      (fun ds => .configuration (.invalidOptions ds)) .fault := by
  rw [build_bind ha, hbase]
  change (Fault.lift (checkNames (Assoc.update es a)) >>= fun _ => _) = _
  rw [checkNames_ok (hes.update ha.texts)]
  rfl

theorem build_eq_error {e : Error} (hbase : baseEntries base = .error e) (ha : Keywords a) :
    build base a = .error e := by
  rw [build_bind ha, hbase]
  rfl

theorem build_eq_ok (hbase : baseEntries base = .ok es) (hes : Named es) (ha : Keywords a) :
    build base a = .ok p ↔ read (Assoc.update es a) = .ok p := by
  rw [build_eq hbase hes ha, Checked.toExcept_eq_ok]

/-- Building options from built ones changes nothing. -/
theorem build_self (p : Options) : build (.options p) [] = .ok p :=
  (build_eq_ok rfl (entries_named p) .nil).mpr (read_entries p)

theorem build_error {e : Error} (hbase : TextKeys base) (ha : Keywords a)
    (h : build base a = .error e) : ∃ c, e = .configuration c := by
  cases hes : baseEntries base with
  | error e' =>
    cases (build_eq_error hes ha).symm.trans h
    exact baseEntries_error hes
  | ok es =>
    rw [build_eq hes (hbase.named hes) ha] at h
    have hhalts := read_haltsIff (F := fun _ => True) (Assoc.update es a)
    cases hread : read (Assoc.update es a) with
    | ok p => simp [hread, Checked.toExcept] at h
    | flawed ds =>
      rw [hread] at h
      cases h
      exact ⟨_, rfl⟩
    | fault f =>
      rw [hread] at hhalts
      exact absurd hhalts.1 not_false

theorem build_two_layers (hbase : TextKeys base) (ha : Keywords a) (hb : Keywords b)
    (h : build base a = .ok p) : build (.options p) b = build base (Assoc.update a b) := by
  cases hes : baseEntries base with
  | error e => cases (build_eq_error hes ha).symm.trans h
  | ok es =>
    have hnamed := hbase.named hes
    have hread : read (Assoc.update es a) = .ok p := (build_eq_ok hes hnamed ha).mp h
    obtain ⟨-, -, -, -, hextras⟩ := read_eq_ok.mp hread
    rw [build_eq rfl (entries_named p) hb, build_eq hes hnamed (ha.update hb),
      read_update (read_entries p) hread hb.texts hb.distinct,
      read_layers hextras ha.texts ha.distinct hb.texts hb.distinct]

/-- Overrides may be given in layers. Let the base be nothing, options built before, or a map whose
keys are texts, and let `a` and `b` be overrides, with any values.

If the base builds under `a`, then what it builds to gives the same under `b` as the base does under
`a` updated with `b`: the same options, or else the same error. Whatever does not build is a
configuration error, and built options build to themselves. -/
theorem build_layered (hbase : TextKeys base) (ha : Keywords a) (hb : Keywords b) :
    (∀ p, build base a = .ok p → build (.options p) b = build base (Assoc.update a b)) ∧
    (∀ e, build base a = .error e → ∃ c, e = .configuration c) ∧
    ∀ p, build (.options p) [] = .ok p :=
  ⟨fun _ => build_two_layers hbase ha hb, fun _ => build_error hbase ha, build_self⟩

def Sample.written : OptionsBase :=
  .value (.map [(.text "max_steps", .text " 07 "), (.text "pure", .int 0)])

/-- The flag as a word, and an observer that takes every event. -/
def Sample.flagged : OptionEntries :=
  [(.text "pure", .other (.text "Yes")), (.text "observer", .fit fun _ => .ok ())]

/-- The other recency, and a truth value for a step budget of one. -/
def Sample.limited : OptionEntries :=
  [(.text "recency", .other (.text "fifo")), (.text "max_steps", .other (.bool true))]

/-- Two names that differ from each other, and from that of the base, are keywords. -/
theorem Sample.pair_keywords {x y : Supplied Observer} (hm : m ≠ "options") (hn : n ≠ "options")
    (hne : m ≠ n) : Keywords [(.text m, x), (.text n, y)] where
  named e he := by
    simp only [List.mem_cons, List.not_mem_nil, or_false] at he
    rcases he with rfl | rfl
    · exact ⟨m, rfl, hm⟩
    · exact ⟨n, rfl, hn⟩
  distinct := by
    have hkeys : (Value.text m == .text n) = false :=
      Bool.eq_false_iff.mpr fun h => hne (Option.some.inj (Value.eq_text.mp h))
    simp [Distinct, hkeys]

/-- The step budget that was read first gives way to the one of the second layer, whether or not it
was read in between. -/
theorem build_layered_limited :
    TextKeys Sample.written ∧ Keywords Sample.flagged ∧ Keywords Sample.limited ∧
    build Sample.written Sample.flagged = .ok ⟨true, .lifo, some 7, some fun _ => .ok ()⟩ ∧
    build (.options ⟨true, .lifo, some 7, some fun _ => .ok ()⟩) Sample.limited =
      build Sample.written (Assoc.update Sample.flagged Sample.limited) ∧
    build Sample.written (Assoc.update Sample.flagged Sample.limited) =
      .ok ⟨true, .fifo, some 1, some fun _ => .ok ()⟩ := by
  have hwritten : TextKeys Sample.written := by
    intro e he
    simp only [List.mem_cons, List.not_mem_nil, or_false] at he
    rcases he with rfl | rfl <;> exact ⟨_, rfl⟩
  have hflagged : Keywords Sample.flagged :=
    Sample.pair_keywords (by decide) (by decide) (by decide)
  have hlimited : Keywords Sample.limited :=
    Sample.pair_keywords (by decide) (by decide) (by decide)
  obtain ⟨hlayered, -, -⟩ := build_layered hwritten hflagged hlimited
  exact ⟨hwritten, hflagged, hlimited, rfl, hlayered _ rfl, rfl⟩

end RuleEngine.Options
