import RuleEngine.Proofs.Source.Chain
import RuleEngine.Proofs.Source.HostClass

/-!
# Inherited rules

A rule set collects its rules in two passes. The first goes through the classes from the least
derived one on and takes down the attributes they declare as rules; the second reads each of these
from an instance, which finds the most derived definition. So the place of a rule is that of its
first declaration and its content that of its last one, whatever the classes in between make of the
attribute (`rules_inherited`).

The passes differ on one point. Slots count as definitions that are no rules, but nothing can be
read from them, so a rule that is replaced by a slot makes the collection fail instead of being left
out (`Hidden`).
-/

namespace RuleEngine.RuleSet

variable {a b : String} {cs : List HostClass} {c : HostClass} {d : ClassDeclaration}
variable {x : Definition} {s : RuleSet}

/-! ## Where a rule comes from -/

/-- The first class of the chain to declare the attribute as a rule is this one, at this place. -/
structure Origin (cs : List HostClass) (a : String) (i : Nat) (c : HostClass) : Prop where
  place : cs[i]? = some c
  declares : c.DeclaresRule a
  first : ∀ j < i, ∀ e, cs[j]? = some e → ¬ e.DeclaresRule a

/-- The first attribute has its origin in an earlier class than the second one, or in an earlier
place of the same class. -/
def Before (cs : List HostClass) (a b : String) : Prop :=
  ∃ i c k e, Origin cs a i c ∧ Origin cs b k e ∧ (i < k ∨ i = k ∧ c.position a < c.position b)

section Origin

variable {i k : Nat} {e : HostClass}

theorem Origin.lt_length (h : Origin cs a i c) : i < cs.length :=
  (List.getElem?_eq_some_iff.mp h.place).1

theorem Origin.append (h : Origin cs a i c) : Origin (cs ++ [e]) a i c where
  place := by rw [List.getElem?_append_left h.lt_length, h.place]
  declares := h.declares
  first j hj x hx := by
    rw [List.getElem?_append_left (Nat.lt_trans hj h.lt_length)] at hx
    exact h.first j hj x hx

/-- What no class of a chain declares as a rule comes from the next one that does. -/
theorem Origin.last (hnew : ∀ x ∈ cs, ¬ x.DeclaresRule a) (h : c.DeclaresRule a) :
    Origin (cs ++ [c]) a cs.length c where
  place := by simp
  declares := h
  first j hj x hx := by
    rw [List.getElem?_append_left hj] at hx
    exact hnew x (List.mem_of_getElem? hx)

theorem exists_origin (h : ∃ x ∈ cs, x.DeclaresRule a) : ∃ i c, Origin cs a i c := by
  induction cs using List.reverseRecOn with
  | nil =>
    obtain ⟨x, hx, -⟩ := h
    cases hx
  | append_singleton cs c ih =>
    by_cases hold : ∃ x ∈ cs, x.DeclaresRule a
    · obtain ⟨i, x, hx⟩ := ih hold
      exact ⟨i, x, hx.append⟩
    · have hnew : ∀ x ∈ cs, ¬ x.DeclaresRule a := fun x hx hd => hold ⟨x, hx, hd⟩
      obtain ⟨x, hx, hd⟩ := h
      rcases List.mem_append.mp hx with hx | hx
      · exact absurd hd (hnew x hx)
      · obtain rfl := List.mem_singleton.mp hx
        exact ⟨cs.length, x, .last hnew hd⟩

theorem Before.append (h : Before cs a b) : Before (cs ++ [e]) a b := by
  obtain ⟨i, c, k, x, ha, hb, hlt⟩ := h
  exact ⟨i, c, k, x, ha.append, hb.append, hlt⟩

theorem Before.irrefl : ¬ Before cs a a := by
  rintro ⟨i, c, k, e, hc, he, hlt | ⟨rfl, hlt⟩⟩
  · exact he.first i hlt c hc.place hc.declares
  · exact absurd hlt (Nat.lt_irrefl _)

end Origin

theorem eraseDups_of_nodup {xs : List String} (h : xs.Nodup) : xs.eraseDups = xs := by
  induction xs with
  | nil => rfl
  | cons x xs ih =>
    obtain ⟨hx, hxs⟩ := List.nodup_cons.mp h
    have hkept : xs.filter (fun y => !y == x) = xs := by
      refine List.filter_eq_self.mpr fun y hy => ?_
      have hne : y ≠ x := fun heq => hx (heq ▸ hy)
      simp [hne]
    rw [List.eraseDups_cons, hkept, ih hxs]

/-- Going through the classes in order takes down their rules in the order of their origins: each
class adds, in its own order, what none before it has declared. -/
theorem eraseDups_ordered (h : ∀ c ∈ cs, c.Regular) :
    (cs.flatMap HostClass.ruleNames).eraseDups.Pairwise (Before cs) := by
  induction cs using List.reverseRecOn with
  | nil => exact .nil
  | append_singleton cs c ih =>
    obtain ⟨hcs, hc⟩ := List.forall_mem_append.mp h
    have hc := List.forall_mem_singleton.mp hc
    have hold {a : String} : a ∈ cs.flatMap HostClass.ruleNames ↔ ∃ x ∈ cs, x.DeclaresRule a := by
      rw [List.mem_flatMap]
      exact exists_congr fun x => and_congr_right fun hx => (hcs x hx).mem_ruleNames
    have hnew {a : String} (ha : a ∈ c.ruleNames.removeAll (cs.flatMap HostClass.ruleNames)) :
        Origin (cs ++ [c]) a cs.length c := by
      simp only [List.removeAll, List.mem_filter, List.elem_eq_mem, Bool.not_eq_true',
        decide_eq_false_iff_not, hold, not_exists, not_and] at ha
      exact .last ha.2 (hc.mem_ruleNames.mp ha.1)
    have hordered := hc.ordered.sublist
      (List.filter_sublist (p := fun a => !(cs.flatMap HostClass.ruleNames).elem a))
    have hnodup : (c.ruleNames.removeAll (cs.flatMap HostClass.ruleNames)).Nodup :=
      hordered.imp fun hlt heq => absurd (heq ▸ hlt) (Nat.lt_irrefl _)
    rw [List.flatMap_append, List.flatMap_singleton, List.eraseDups_append,
      eraseDups_of_nodup hnodup]
    refine List.pairwise_append.mpr ⟨(ih hcs).imp Before.append, ?_, fun a ha b hb => ?_⟩
    · refine hordered.imp_of_mem fun ha hb hlt => ?_
      exact ⟨_, _, _, _, hnew ha, hnew hb, .inr ⟨rfl, hlt⟩⟩
    · obtain ⟨i, x, hx⟩ := exists_origin (hold.mp (List.mem_eraseDups.mp ha))
      exact ⟨_, _, _, _, hx.append, hnew hb, .inl hx.lt_length⟩

/-! ## What a rule is -/

/-- The last class of the chain to have something under the name has this. -/
def MostDerived (cs : List HostClass) (a : String) (x : Definition) : Prop :=
  ∃ before c after, cs = before ++ c :: after ∧ c.definitions.lookup a = some x ∧
    ∀ e ∈ after, e.definitions.lookup a = none

/-- A rule of the chain that was replaced by a slot. -/
def Hidden (cs : List HostClass) (a : String) : Prop :=
  (∃ c ∈ cs, c.DeclaresRule a) ∧ MostDerived cs a .slot

theorem resolve_eq_some : resolve ⟨cs.reverse⟩ a = some x ↔ MostDerived cs a x := by
  unfold resolve MostDerived
  rw [List.findSome?_eq_some_iff]
  constructor
  · rintro ⟨after, c, before, hsplit, hc, hafter⟩
    refine ⟨before.reverse, c, after.reverse, ?_, hc, by simpa using hafter⟩
    simpa using congrArg List.reverse hsplit
  · rintro ⟨before, c, after, rfl, hc, hafter⟩
    exact ⟨after.reverse, c, before.reverse, by simp, hc, by simpa using hafter⟩

theorem resolve_eq_none : resolve ⟨cs.reverse⟩ a = none ↔
    ∀ c ∈ cs, c.definitions.lookup a = none := by
  simp [resolve]

/-- What some class declares as a rule has a most derived definition. -/
theorem exists_mostDerived (h : ∃ c ∈ cs, c.DeclaresRule a) : ∃ x, MostDerived cs a x := by
  obtain ⟨c, hc, f, hf, -⟩ := h
  cases hr : resolve ⟨cs.reverse⟩ a with
  | some x => exact ⟨x, resolve_eq_some.mp hr⟩
  | none => cases (resolve_eq_none.mp hr c hc).symm.trans hf

/-- The rule that an attribute is, by its most derived definition. -/
def rule (s : RuleSet) (a : String) : Option Rule :=
  match s.resolve a with
  | some (.member (.function f)) => f.declaration.bind fun d => (d.build f.action a).toOption
  | _ => none

/-- The classes replace neither how attributes are read nor how instances are made and asked for
their rules, and their rules can be built. -/
structure Standard (s : RuleSet) : Prop where
  reads : s.resolve "__getattribute__" = none
  creates : s.resolve "__new__" = none
  starts : s.resolve "__init__" = none
  collects : s.resolve "rules" = none
  builds : ∀ a f d, s.resolve a = some (.member (.function f)) → f.declaration = some d →
    ∃ r, d.build f.action a = .ok r

theorem Standard.instantiate (h : s.Standard) : s.instantiate = .ok () := by
  rw [RuleSet.instantiate, h.creates, h.starts]

/-- Reading an attribute finds its most derived definition, which gives the rule that it is, except
that nothing can be read from a slot. -/
theorem Standard.rule?_cases (h : s.Standard) (hx : s.resolve a = some x) :
    s.rule? a = .ok (s.rule a) ∨
      x = .slot ∧ ∃ f, s.readMissing a = .error f ∧ s.rule? a = .error (.fault f) := by
  unfold rule? read readAs rule
  rw [h.reads, hx]
  cases x with
  | slot =>
    cases s.readMissing a with
    | ok => exact .inl rfl
    | error f => exact .inr ⟨rfl, f, rfl, rfl⟩
  | member m =>
    refine .inl ?_
    cases m with
    | plain v => rfl
    | function f =>
      cases hd : f.declaration with
      | none =>
        simp [ClassMember.declaration?, hd, Fault.lift, bind, Except.bind, pure, Except.pure]
      | some d =>
        obtain ⟨r, hr⟩ := h.builds a f d hx hd
        simp [ClassMember.declaration?, hd, hr, Fault.lift, bind, Except.bind, pure, Except.pure,
          Except.toOption]

theorem Standard.rule?_slot (h : s.Standard) (hx : s.resolve a = some .slot) {f : Fault}
    (hf : s.readMissing a = .error f) : s.rule? a = .error (.fault f) := by
  unfold rule? read readAs
  rw [h.reads, hx, hf]
  rfl

theorem Standard.rules_eq (h : s.Standard) : s.rules =
    (s.attributes.mapM s.rule?).map fun rs => rs.filterMap id := by
  unfold rules checkCollection
  rw [h.collects, h.reads]
  cases s.attributes.mapM s.rule? <;> rfl

theorem standard_of_regular (h : ∀ c ∈ cs, c.Regular) : Standard ⟨cs.reverse⟩ := by
  have hkeeps {a : String} (ha : a ∈ ClassDeclaration.inheritedNames) (hmodule : a ≠ "__module__")
      (hdoc : a ≠ "__doc__") : resolve ⟨cs.reverse⟩ a = none :=
    resolve_eq_none.mpr fun c hc => (h c hc).keeps a ha hmodule hdoc
  refine ⟨hkeeps (by decide) (by decide) (by decide), hkeeps (by decide) (by decide) (by decide),
    hkeeps (by decide) (by decide) (by decide), hkeeps (by decide) (by decide) (by decide),
    fun a f d hf hd => ?_⟩
  obtain ⟨before, c, after, rfl, hc, -⟩ := resolve_eq_some.mp hf
  exact (h c (by simp)).builds a f d (HostClass.mem_of_lookup hc) hd

theorem attributes_eq (cs : List HostClass) :
    attributes ⟨cs.reverse⟩ = (cs.flatMap HostClass.ruleNames).eraseDups := by
  rw [attributes, List.reverse_reverse]
  rfl

theorem mem_attributes (h : ∀ c ∈ cs, c.Regular) :
    a ∈ attributes ⟨cs.reverse⟩ ↔ ∃ c ∈ cs, c.DeclaresRule a := by
  rw [attributes_eq, List.mem_eraseDups, List.mem_flatMap]
  exact exists_congr fun c => and_congr_right fun hc => (h c hc).mem_ruleNames

/-- The attributes and their rules are those that a chain of classes hands down. Each attribute is
there once, and just if its most derived definition is a function that declares a rule; it comes in
the place where a rule is first declared under its name, and its rule is built from the most derived
definition, with the attribute for want of a name. Under `__class_getitem__` a class can have a
function that declares a rule and belongs to the class itself, so that there some class has to
declare a rule of instances besides. -/
structure Inherits (cs : List HostClass) (as : List String) (rs : List Rule) : Prop where
  nodup : as.Nodup
  mem_iff : ∀ a, a ∈ as ↔
    (∃ f, MostDerived cs a (.member (.function f)) ∧ f.declaration.isSome = true) ∧
      (a = "__class_getitem__" → ∃ c ∈ cs, c.DeclaresRule a)
  ordered : as.Pairwise (Before cs)
  built : List.Forall₂ (fun a r => ∃ f d, MostDerived cs a (.member (.function f)) ∧
    f.declaration = some d ∧ d.build f.action a = .ok r) as rs

theorem rule_eq_some {r : Rule} : rule ⟨cs.reverse⟩ a = some r ↔
    ∃ f d, MostDerived cs a (.member (.function f)) ∧ f.declaration = some d ∧
      d.build f.action a = .ok r := by
  simp only [← resolve_eq_some]
  unfold rule
  split
  · rename_i f hf
    simp [hf, Option.bind_eq_some_iff, toOption_eq_some]
  · rename_i hother
    refine iff_of_false nofun ?_
    rintro ⟨f, d, hf, -⟩
    exact hother f hf

theorem Standard.isSome_rule (h : Standard ⟨cs.reverse⟩) : (rule ⟨cs.reverse⟩ a).isSome = true ↔
    ∃ f, MostDerived cs a (.member (.function f)) ∧ f.declaration.isSome = true := by
  simp only [Option.isSome_iff_exists, rule_eq_some]
  constructor
  · rintro ⟨r, f, d, hf, hd, -⟩
    exact ⟨f, hf, d, hd⟩
  · rintro ⟨f, hf, d, hd⟩
    obtain ⟨r, hr⟩ := h.builds a f d (resolve_eq_some.mpr hf) hd
    exact ⟨r, f, d, hf, hd, hr⟩

/-- Of the attributes that some class declares as rules, those that still are rules are handed
down. -/
theorem Standard.inherits (h : Standard ⟨cs.reverse⟩) (hcs : ∀ c ∈ cs, c.Regular) :
    Inherits cs ((attributes ⟨cs.reverse⟩).filter fun a => (rule ⟨cs.reverse⟩ a).isSome)
      ((attributes ⟨cs.reverse⟩).filterMap (rule ⟨cs.reverse⟩)) := by
  have hordered : (attributes ⟨cs.reverse⟩).Pairwise (Before cs) :=
    attributes_eq cs ▸ eraseDups_ordered hcs
  refine ⟨?_, fun a => ?_, hordered.filter _, ?_⟩
  · refine List.Nodup.filter _ (hordered.imp ?_)
    rintro a _ hab rfl
    exact Before.irrefl hab
  · rw [List.mem_filter, mem_attributes hcs, h.isSome_rule, and_comm]
    refine and_congr_right fun ⟨f, hf, hrule⟩ => ⟨fun hd _ => hd, fun hd => ?_⟩
    by_cases ha : a = "__class_getitem__"
    · exact hd ha
    · -- under any other name the most derived definition is such a declaration itself
      obtain ⟨before, c, after, rfl, hc, -⟩ := hf
      exact ⟨c, by simp, f, hc, hrule, fun heq => absurd heq ha⟩
  · exact (forall₂_filter_filterMap (rule ⟨cs.reverse⟩) _).imp fun a r => rule_eq_some.mp

/-! ## Collecting the rules -/

theorem regular_of_chain {ds : List ClassDeclaration} (h : Chain ds cs)
    (hds : ∀ d ∈ ds, d.Regular) : ∀ c ∈ cs, c.Regular := by
  intro c hc
  obtain ⟨d, hd, -, slots, hslots, hdefinitions⟩ := exists_of_forall₂ h.definitions.flip hc
  exact (hds d hd).toClass hslots hdefinitions

/-- Each attribute that is taken down is read as the rule it is, unless it is hidden. -/
theorem rule?_attribute (hcs : ∀ c ∈ cs, c.Regular) (ha : a ∈ attributes ⟨cs.reverse⟩) :
    rule? ⟨cs.reverse⟩ a = .ok (rule ⟨cs.reverse⟩ a) ∨ Hidden cs a ∧
      ∃ f, readMissing ⟨cs.reverse⟩ a = .error f ∧ rule? ⟨cs.reverse⟩ a = .error (.fault f) := by
  have hdeclared := (mem_attributes hcs).mp ha
  obtain ⟨x, hx⟩ := exists_mostDerived hdeclared
  refine ((standard_of_regular hcs).rule?_cases (resolve_eq_some.mpr hx)).imp_right ?_
  rintro ⟨rfl, hfails⟩
  exact ⟨⟨hdeclared, hx⟩, hfails⟩

/-- If something answers for every hidden rule, the rules are those that the chain hands down. -/
theorem rules_of_answers (hcs : ∀ c ∈ cs, c.Regular)
    (h : ∀ a, Hidden cs a → readMissing ⟨cs.reverse⟩ a = .ok ()) :
    ∃ as rs, rules ⟨cs.reverse⟩ = .ok rs ∧ Inherits cs as rs := by
  have hall : (attributes ⟨cs.reverse⟩).mapM (rule? ⟨cs.reverse⟩) =
      .ok ((attributes ⟨cs.reverse⟩).map (rule ⟨cs.reverse⟩)) := by
    refine mapM_eq_ok.mpr (List.forall₂_map_right_iff.mpr (List.forall₂_same.mpr fun a ha => ?_))
    rcases rule?_attribute hcs ha with hok | ⟨hhidden, f, hf, -⟩
    · exact hok
    · cases (h a hhidden).symm.trans hf
  refine ⟨_, _, ?_, (standard_of_regular hcs).inherits hcs⟩
  rw [(standard_of_regular hcs).rules_eq, hall]
  simp [Except.map, List.filterMap_map]

/-- If nothing answers for some hidden rule, collecting the rules fails at the first such one. -/
theorem rules_of_hidden (hcs : ∀ c ∈ cs, c.Regular) {f : Fault} (ha : Hidden cs a)
    (hf : readMissing ⟨cs.reverse⟩ a = .error f) :
    ∃ b g, Hidden cs b ∧ readMissing ⟨cs.reverse⟩ b = .error g ∧
      rules ⟨cs.reverse⟩ = .error (.fault g) := by
  have hstandard := standard_of_regular hcs
  have hslot := hstandard.rule?_slot (resolve_eq_some.mpr ha.2) hf
  cases hall : (attributes ⟨cs.reverse⟩).mapM (rule? ⟨cs.reverse⟩) with
  | ok os =>
    have hmem := (mem_attributes hcs).mpr ha.1
    obtain ⟨o, -, ho⟩ := exists_of_forall₂ (mapM_eq_ok.mp hall) hmem
    cases ho.symm.trans hslot
  | error e =>
    obtain ⟨before, b, after, hsplit, -, hb⟩ := mapM_eq_error.mp hall
    have hmem : b ∈ attributes ⟨cs.reverse⟩ := hsplit ▸ by simp
    rcases rule?_attribute hcs hmem with hok | ⟨hbhidden, g, hg, hbg⟩
    · cases hb.symm.trans hok
    · obtain rfl := Except.error.inj (hb.symm.trans hbg)
      exact ⟨b, g, hbhidden, hg, by rw [hstandard.rules_eq, hall]; rfl⟩

/-- The rules of a chain of classes. Unless a rule was replaced by a slot from which nothing can be
read, they are those that the chain hands down, each in the place of its first declaration. If one
was, collecting them fails with what comes of reading such a slot. -/
theorem rules_inherited {ds : List ClassDeclaration} (h : Chain ds cs) (hne : ds ≠ [])
    (hds : ∀ d ∈ ds, d.Regular) :
    ∃ s, ofClasses cs (-1) = .ok s ∧ s.instantiate = .ok () ∧
      ((∀ a, Hidden cs a → s.readMissing a = .ok ()) →
        ∃ as rs, s.rules = .ok rs ∧ Inherits cs as rs) ∧
      ((∃ a f, Hidden cs a ∧ s.readMissing a = .error f) →
        ∃ a f, Hidden cs a ∧ s.readMissing a = .error f ∧ s.rules = .error (.fault f)) := by
  have hcs : ∀ c ∈ cs, c.Regular := regular_of_chain h hds
  have hne' : cs ≠ [] := by
    rintro rfl
    exact hne (List.forall₂_nil_right_iff.mp h.definitions)
  refine ⟨⟨cs.reverse⟩, h.ofClasses_last hne', (standard_of_regular hcs).instantiate,
    rules_of_answers hcs, ?_⟩
  rintro ⟨a, f, ha, hf⟩
  exact rules_of_hidden hcs ha hf

/-! ## Two chains -/

/-- A function that declares a rule of a salience, by one pattern. -/
def Sample.ruled (salience : Int) : ClassMember :=
  .function ⟨some "handler", "desk", some ⟨none, [⟨fun _ => .ok .none, none⟩], .int salience,
    .bool false, .none, .none⟩, fun _ => .ok (.effects [])⟩

def Sample.desk : ClassDeclaration :=
  ⟨"Desk", "desk", [], [("review", Sample.ruled 5), ("refund", Sample.ruled 0)]⟩

def Sample.quietDesk : ClassDeclaration := ⟨"QuietDesk", "desk", [0], [("review", .plain .none)]⟩

def Sample.strictDesk : ClassDeclaration :=
  ⟨"StrictDesk", "desk", [1], [("totals", Sample.ruled 0), ("review", Sample.ruled 50)]⟩

def Sample.desks : List HostClass :=
  [⟨"Desk", Sample.desk.definitions [], [0], none⟩,
    ⟨"QuietDesk", Sample.quietDesk.definitions [], [1, 0], none⟩,
    ⟨"StrictDesk", Sample.strictDesk.definitions [], [2, 1, 0], none⟩]

theorem Sample.desks_chain :
    Chain [Sample.desk, Sample.quietDesk, Sample.strictDesk] Sample.desks := by
  have hdesk : Chain [Sample.desk] (Sample.desks.take 1) := .snoc .nil rfl rfl
  have hquiet : Chain [Sample.desk, Sample.quietDesk] (Sample.desks.take 2) := .snoc hdesk rfl rfl
  exact .snoc hquiet rfl rfl

/-- Classes whose members are such functions and plain values are regular. -/
theorem Sample.regular {slots : List String} (hdistinct : (d.members.map (·.1)).Nodup)
    (hnames : ∀ a ∈ d.members.map (·.1), a ≠ "" ∧ a ∉ ClassDeclaration.inheritedNames)
    (hslots : d.slots = .ok slots) (hfresh : ∀ s ∈ slots, s ∉ ClassDeclaration.inheritedNames)
    (hmembers : ∀ m ∈ d.members, (∃ n, m.2 = Sample.ruled n) ∨ ∃ v, m.2 = .plain v) :
    d.Regular where
  distinct := hdistinct
  fresh m hm := (hnames m.1 (List.mem_map_of_mem hm)).2
  freshSlots slots' hslots' := Except.ok.inj (hslots.symm.trans hslots') ▸ hfresh
  builds m hm f decl hf hdecl := by
    rcases hmembers m hm with ⟨n, hn⟩ | ⟨v, hv⟩
    · cases hn.symm.trans hf
      cases hdecl
      simp only [Declaration.build, Rule.make, Option.elim_none, Value.name?,
        (hnames m.1 (List.mem_map_of_mem hm)).1, dite_false]
      exact ⟨_, rfl⟩
    · cases hv.symm.trans hf

theorem Sample.desk_regular : Sample.desk.Regular :=
  Sample.regular (by decide) (by decide) rfl (by decide) (by simp [Sample.desk])

theorem Sample.quietDesk_regular : Sample.quietDesk.Regular :=
  Sample.regular (by decide) (by decide) rfl (by decide) (by simp [Sample.quietDesk])

theorem Sample.strictDesk_regular : Sample.strictDesk.Regular :=
  Sample.regular (by decide) (by decide) rfl (by decide) (by simp [Sample.strictDesk])

/-- The rule that was replaced and taken up again is in its old place, with its last definition. -/
theorem rules_inherited_desks :
    Chain [Sample.desk, Sample.quietDesk, Sample.strictDesk] Sample.desks ∧
    (∀ d ∈ [Sample.desk, Sample.quietDesk, Sample.strictDesk], d.Regular) ∧
    ∃ s as rs, ofClasses Sample.desks (-1) = .ok s ∧ (∀ a, ¬ Hidden Sample.desks a) ∧
      s.rules = .ok rs ∧ Inherits Sample.desks as rs ∧
      rs.map (fun r => (r.name.text, r.salience.amount)) =
        [("review", 50), ("refund", 0), ("totals", 0)] := by
  have hregular : ∀ d ∈ [Sample.desk, Sample.quietDesk, Sample.strictDesk], d.Regular := by
    simp only [List.forall_mem_cons]
    exact ⟨Sample.desk_regular, Sample.quietDesk_regular, Sample.strictDesk_regular, nofun⟩
  have hslots : ∀ c ∈ Sample.desks, ∀ e ∈ c.definitions, e.2 ≠ .slot := by
    simp only [Sample.desks, List.forall_mem_cons]
    exact ⟨fun _ => ClassDeclaration.ne_slot_of_mem, fun _ => ClassDeclaration.ne_slot_of_mem,
      fun _ => ClassDeclaration.ne_slot_of_mem, nofun⟩
  have hnone : ∀ a, ¬ Hidden Sample.desks a := by
    rintro a ⟨-, before, c, after, hsplit, hc, -⟩
    exact hslots c (hsplit ▸ by simp) _ (HostClass.mem_of_lookup hc) rfl
  obtain ⟨s, hs, -, hok, -⟩ := rules_inherited Sample.desks_chain (by simp) hregular
  obtain ⟨as, rs, hrs, hinherits⟩ := hok fun a ha => absurd ha (hnone a)
  refine ⟨Sample.desks_chain, hregular, s, as, rs, hs, hnone, hrs, hinherits, ?_⟩
  have hclasses : ofClasses Sample.desks (-1) = .ok ⟨Sample.desks.reverse⟩ := rfl
  obtain rfl := Except.ok.inj (hs.symm.trans hclasses)
  have hcomputed : (rules ⟨Sample.desks.reverse⟩).toOption.map
      (·.map fun r => (r.name.text, r.salience.amount)) =
        some [("review", 50), ("refund", 0), ("totals", 0)] := by decide +kernel
  rw [hrs] at hcomputed
  exact Option.some.inj hcomputed

/-- A class that keeps a slot for what is a rule in the class before. -/
def Sample.lockedDesk : ClassDeclaration :=
  ⟨"LockedDesk", "desk", [0], [("__slots__", .plain (.list [.text "review"]))]⟩

def Sample.locked : List HostClass :=
  [⟨"Desk", Sample.desk.definitions [], [0], none⟩,
    ⟨"LockedDesk", Sample.lockedDesk.definitions ["review"], [1, 0], some 1⟩]

/-- Of the two rules one is hidden by a slot. The other one is still handed down, but collecting
them fails. -/
theorem rules_inherited_locked : Chain [Sample.desk, Sample.lockedDesk] Sample.locked ∧
    (∀ d ∈ [Sample.desk, Sample.lockedDesk], d.Regular) ∧
    ofClasses Sample.locked (-1) = .ok ⟨Sample.locked.reverse⟩ ∧
    MostDerived Sample.locked "review" .slot ∧
    MostDerived Sample.locked "refund" (.member (Sample.ruled 0)) ∧
    rules ⟨Sample.locked.reverse⟩ = .error (.fault (.missingAttribute "LockedDesk" "review")) ∧
    ¬ ∃ as rs, rules ⟨Sample.locked.reverse⟩ = .ok rs ∧ Inherits Sample.locked as rs := by
  have hdesk : Chain [Sample.desk] (Sample.locked.take 1) := .snoc .nil rfl rfl
  have hlocked : Sample.lockedDesk.Regular :=
    Sample.regular (by decide) (by decide) rfl (by decide) (by simp [Sample.lockedDesk])
  have hfails : rules ⟨Sample.locked.reverse⟩ =
      .error (.fault (.missingAttribute "LockedDesk" "review")) := rfl
  refine ⟨.snoc hdesk rfl rfl, ?_, rfl, ?_, ?_, hfails, ?_⟩
  · simp only [List.forall_mem_cons]
    exact ⟨Sample.desk_regular, hlocked, nofun⟩
  · exact ⟨Sample.locked.take 1, _, [], rfl, rfl, nofun⟩
  · exact ⟨[], _, Sample.locked.drop 1, rfl, rfl, by decide⟩
  · rintro ⟨as, rs, hrs, -⟩
    cases hfails.symm.trans hrs

end RuleEngine.RuleSet
