import RuleEngine.Proofs.Document.Safety
import RuleEngine.Proofs.Schema.Fault
import RuleEngine.Proofs.Value.Plain

/-!
# Malformed documents

Plain data given as a rule document is compiled, or it is reported as malformed, with one exception.
The operator of a condition is looked up before it is known to be a text, and a list or a map has no
hash to be looked up by. Where the check comes to such an operator (`Document.Trips`) the fault ends
the reading, and neither rules nor a report come out of it.

* `Document.parse_reports`: what reading the declarations gives. Only conditions can end it.
* `RuleSpec.compile_reports`: a rule that has been read compiles or is malformed.
* `Document.compile_outcome`: both together, for all plain data.
-/

namespace RuleEngine

variable {v : Value} {xs : List Value} {es : List (Value × Value)}

/-! ## Parts of plain data -/

namespace Value

theorem IsPlain.of_lookup {k : Value} (h : (Value.map es).IsPlain)
    (hl : Assoc.lookup k es = some v) : v.IsPlain := by
  obtain ⟨e, he, -, rfl⟩ := Assoc.mem_of_lookup hl
  exact h.of_map.2.1 e he

theorem IsPlain.of_items (h : v.IsPlain) (hxs : Schema.items? v = some xs) :
    ∀ x ∈ xs, x.IsPlain := by
  cases v with
  | list =>
    cases hxs
    exact h.of_list
  | tuple =>
    cases hxs
    exact h.of_tuple
  | set | frozenSet =>
    cases h with
    | scalar hs => cases hs
  | _ => cases hxs

theorem IsPlain.of_sequence (h : v.IsPlain) (hxs : Condition.sequence? v = some xs) :
    ∀ x ∈ xs, x.IsPlain := by
  cases v with
  | list =>
    cases hxs
    exact h.of_list
  | tuple =>
    cases hxs
    exact h.of_tuple
  | buffer =>
    cases h with
    | scalar hs => cases hs
  | _ => cases hxs

end Value

/-! ## Where the check of a document trips -/

def Fault.IsUnhashable (f : Fault) : Prop := ∃ cls, f = .unhashable cls

/-- Among these declared conditions there is one whose operator has no hash, and all before it are
conditions, so that the check comes to it. -/
def Condition.Trips (atoms : List (List Value)) : Prop :=
  ∃ before op left right after, atoms = before ++ [op, left, right] :: after ∧
    (∀ a ∈ before, ∃ c, ofValue (.list a) = .ok c) ∧ op.hashable = false

namespace Document

def PatternTrips (v : Value) : Prop :=
  ∃ w, v.entry? "where" = some w ∧
    ∃ atoms, Schema.list (Schema.list .ok) w = .ok atoms ∧ Condition.Trips atoms

def RuleTrips (v : Value) : Prop :=
  ∃ w, v.entry? "when" = some w ∧ ∃ ps, Schema.items? w = some ps ∧ ∃ p ∈ ps, PatternTrips p

/-- The rules that plain data declares: those under the key `rules` of a map, the map itself if it
has no such key, or the items of a sequence. -/
def declared (v : Value) : List Value :=
  match v with
  | .map es => match Assoc.lookup (.text "rules") es with
    | some w => (Schema.items? w).getD []
    | none => [v]
  | _ => (Condition.sequence? v).getD []

/-- The check trips over a rule of the document. -/
def Trips (v : Value) : Prop := ∃ r ∈ declared v, RuleTrips r

theorem declared_plain (h : v.IsPlain) : ∀ w ∈ declared v, w.IsPlain := by
  intro w hw
  unfold declared at hw
  split at hw
  · split at hw
    · rename_i es u hu
      cases hi : Schema.items? u with
      | none => simp [hi] at hw
      | some xs => exact (h.of_lookup hu).of_items hi w (by simpa [hi] using hw)
    · rwa [List.mem_singleton.mp hw]
  · cases hs : Condition.sequence? v with
    | none => simp [hs] at hw
    | some xs => exact h.of_sequence hs w (by simpa [hs] using hw)

end Document

/-! ## Checking conditions -/

theorem Value.checkHashable_eq_error {f : Fault} :
    v.checkHashable = .error f ↔ ∃ cls, v.unhashable? = some cls ∧ f = .unhashable cls := by
  unfold checkHashable
  cases v.unhashable? <;> simp [eq_comm]

namespace Condition

/-- Reading a condition ends in a fault only at an operator without a hash. -/
theorem ofValue_eq_fault {atom : List Value} {f : Fault} :
    ofValue (.list atom) = .error (.fault f) ↔
      ∃ op left right, atom = [op, left, right] ∧ op.checkHashable = .error f := by
  unfold ofValue
  split
  · rename_i op left right hatom
    obtain rfl : atom = [op, left, right] := Option.some.inj hatom
    rw [bind_eq_error]
    constructor
    · rintro (h | ⟨_, -, h⟩)
      · cases hop : op.checkHashable with
        | error g =>
          rw [hop] at h
          cases h
          exact ⟨op, left, right, rfl, hop⟩
        | ok => simp [hop, Fault.lift] at h
      · -- past the look-up there are only reports
        split at h
        · split at h <;> cases h
        · cases h
    · rintro ⟨_, _, _, hsame, hop⟩
      cases hsame
      exact .inl (by rw [hop]; rfl)
  · rename_i hshape
    refine iff_of_false (fun h => by cases h) ?_
    rintro ⟨op, left, right, rfl, -⟩
    exact hshape op left right rfl

/-- Checking conditions ends in a fault at the first operator without a hash, unless something else
is wrong before it. -/
theorem ofValues_eq_fault {atoms : List (List Value)} {f : Fault} :
    ofValues (atoms.map .list) = .error (.fault f) ↔
      ∃ before op left right after, atoms = before ++ [op, left, right] :: after ∧
        (∀ a ∈ before, ∃ c, ofValue (.list a) = .ok c) ∧ op.checkHashable = .error f := by
  rw [ofValues, List.mapM_map, mapM_eq_error]
  simp only [Function.comp_apply, ofValue_eq_fault]
  constructor
  · rintro ⟨before, _, after, hsplit, hbefore, op, left, right, rfl, hop⟩
    exact ⟨before, op, left, right, after, hsplit, hbefore, hop⟩
  · rintro ⟨before, op, left, right, after, hsplit, hbefore, hop⟩
    exact ⟨before, _, after, hsplit, hbefore, op, left, right, rfl, hop⟩

theorem trips_iff {atoms : List (List Value)} :
    Trips atoms ↔ ∃ f, ofValues (atoms.map .list) = .error (.fault f) := by
  have hhash : ∀ op : Value, op.hashable = false ↔ ∃ f, op.checkHashable = .error f := by
    intro op
    unfold Value.hashable Value.checkHashable
    cases op.unhashable? <;> simp
  simp only [ofValues_eq_fault, Trips, hhash]
  constructor
  · rintro ⟨before, op, left, right, after, hsplit, hbefore, f, hop⟩
    exact ⟨f, before, op, left, right, after, hsplit, hbefore, hop⟩
  · rintro ⟨f, before, op, left, right, after, hsplit, hbefore, hop⟩
    exact ⟨before, op, left, right, after, hsplit, hbefore, f, hop⟩

end Condition

/-! ## Reading declarations -/

namespace Document

open Checked (HaltsIff)

theorem checkConditions_haltsIff (atoms : List (List Value)) :
    HaltsIff Fault.IsUnhashable (Condition.Trips atoms) (checkConditions atoms) := by
  unfold checkConditions
  have htrips : Condition.Trips atoms ↔ _ := Condition.trips_iff
  split
  · rename_i hok
    intro h
    obtain ⟨f, hf⟩ := htrips.mp h
    cases hok.symm.trans hf
  · rename_i f hf
    refine ⟨htrips.mpr ⟨f, hf⟩, ?_⟩
    obtain ⟨_, op, _, _, _, -, -, hop⟩ := Condition.ofValues_eq_fault.mp hf
    obtain ⟨cls, -, hcls⟩ := Value.checkHashable_eq_error.mp hop
    exact ⟨cls, hcls⟩
  · rename_i e hne he
    intro h
    obtain ⟨f, hf⟩ := htrips.mp h
    exact hne f (Except.error.inj (he.symm.trans hf))

theorem conditions_haltsIff (v : Value) : HaltsIff Fault.IsUnhashable
    (∃ atoms, Schema.list (Schema.list .ok) v = .ok atoms ∧ Condition.Trips atoms)
    (conditions v) := by
  have hlists : HaltsIff Fault.IsUnhashable False (Schema.list (Schema.list .ok) v) := by
    refine (Schema.list_haltsIff (R := fun _ => False) (fun w => ?_) v).congr (by simp)
    exact (Schema.list_haltsIff (fun u => .ok u) w).congr (by simp)
  exact (hlists.andThen checkConditions_haltsIff).congr (by simp)

theorem bindName_haltsIff {F : Fault → Prop} (v : Value) : HaltsIff F False (bindName v) := by
  refine (Schema.text_haltsIff v).check fun s => ?_
  split <;> exact not_false

theorem patternSpec_haltsIff (v : Value) :
    HaltsIff Fault.IsUnhashable (PatternTrips v) (patternSpec v) := by
  refine Schema.record_haltsIff (fun es => ?_) _ v
  exact (Schema.defaulted_haltsIff (Schema.optional_haltsIff Schema.text_haltsIff) _ _ es)
    |>.map PatternSpec.mk
    |>.seq (Schema.defaulted_haltsIff Schema.textMap_haltsIff _ _ es)
    |>.seq (Schema.defaulted_haltsIff conditions_haltsIff _ _ es)
    |>.seq (Schema.defaulted_haltsIff (Schema.optional_haltsIff bindName_haltsIff) _ _ es)
    |>.congr (by simp)

theorem effectParts_haltsIff {F : Fault → Prop} {op : String} {parts : List String}
    {read : Checked EffectSpec} (h : effectParts op es = some (parts, read)) :
    HaltsIff F False read := by
  have htaken : ∀ w, HaltsIff F False (Checked.ok w : Checked Value) := fun w => .ok w
  unfold effectParts at h
  split at h
  case h_1 | h_2 | h_3 =>
    cases h
    exact ((Schema.required_haltsIff htaken _ es).map _).congr (by simp)
  · cases h
    exact ((Schema.required_haltsIff Schema.fullText_haltsIff _ es).map EffectSpec.emit)
      |>.seq (Schema.defaulted_haltsIff htaken _ _ es) |>.congr (by simp)
  · cases h
    exact ((Schema.defaulted_haltsIff Schema.text_haltsIff _ _ es).map EffectSpec.log)
      |>.seq (Schema.required_haltsIff Schema.text_haltsIff _ es) |>.congr (by simp)
  · cases h
    exact ((Schema.required_haltsIff Schema.fullText_haltsIff _ es).map EffectSpec.set)
      |>.seq (Schema.defaulted_haltsIff htaken _ _ es) |>.congr (by simp)
  · cases h

theorem effectSpec_haltsIff {F : Fault → Prop} (v : Value) : HaltsIff F False (effectSpec v) := by
  unfold effectSpec
  split
  · split
    · exact not_false
    · split
      · exact not_false
      · split
        · exact not_false
        · rename_i hparts
          exact ((effectParts_haltsIff hparts).withFlaws _).under _
  · split <;> exact not_false

theorem ruleSpec_haltsIff (v : Value) :
    HaltsIff Fault.IsUnhashable (RuleTrips v) (ruleSpec v) := by
  have htaken : ∀ w, HaltsIff Fault.IsUnhashable False (Checked.ok w : Checked Value) :=
    fun w => .ok w
  refine Schema.record_haltsIff (fun es => ?_) _ v
  exact ((Schema.required_haltsIff Schema.fullText_haltsIff _ es).map RuleSpec.mk)
    |>.seq (Schema.required_haltsIff (Schema.fullList_haltsIff patternSpec_haltsIff) _ es)
    |>.seq (Schema.defaulted_haltsIff (Schema.list_haltsIff effectSpec_haltsIff) _ _ es)
    |>.seq (Schema.defaulted_haltsIff Schema.integer_haltsIff _ _ es)
    |>.seq (Schema.defaulted_haltsIff Schema.flag_haltsIff _ _ es)
    |>.seq (Schema.defaulted_haltsIff
      (Schema.optional_haltsIff (Schema.choice_haltsIff modes)) _ _ es)
    |>.seq (Schema.defaulted_haltsIff htaken _ _ es)
    |>.congr (by simp)

theorem ruleBook_haltsIff (v : Value) : HaltsIff Fault.IsUnhashable
    (∃ w, v.entry? "rules" = some w ∧ ∃ rs, Schema.items? w = some rs ∧ ∃ r ∈ rs, RuleTrips r)
    (ruleBook v) := by
  refine Schema.record_haltsIff (fun es => ?_) _ v
  exact (Schema.defaulted_haltsIff (Schema.list_haltsIff ruleSpec_haltsIff) _ _ es).map _

end Document

/-! ## Results that are reports -/

/-- The computation gives a result or reports a malformed definition, unless `P` holds; then it ends
in the fault of a value that has no hash. -/
def ReportsUnless {α : Type} (P : Prop) : Except Error α → Prop
  | .ok _ | .error (.definition _) => ¬ P
  | .error (.fault f) => P ∧ f.IsUnhashable
  | .error _ => False

namespace ReportsUnless

variable {α β : Type} {P Q : Prop} {x : Except Error α}

theorem congr (h : ReportsUnless P x) (hpq : P ↔ Q) : ReportsUnless Q x := by
  rwa [← hpq]

theorem of_ok {a : α} (h : x = .ok a) : ReportsUnless False x := by
  rw [h]
  exact not_false

theorem malformed (e : DefinitionError) : ReportsUnless False (malformed e : Except Error α) :=
  not_false

theorem mapError (x : Except DefinitionError α) :
    ReportsUnless False (x.mapError Error.definition) := by
  cases x <;> exact not_false

theorem bind {f : α → Except Error β} (hx : ReportsUnless P x)
    (hf : ∀ a, x = .ok a → ReportsUnless False (f a)) : ReportsUnless P (x >>= f) := by
  cases x with
  | error e => cases e <;> exact hx
  | ok a =>
    change ReportsUnless P (f a)
    exact (hf a rfl).congr (iff_of_false not_false hx)

theorem map (h : ReportsUnless P x) (f : α → β) : ReportsUnless P (x.map f) := by
  cases x with
  | error e => cases e <;> exact h
  | ok a => exact h

theorem mapM {f : α → Except Error β} {xs : List α} (h : ∀ x ∈ xs, ReportsUnless False (f x)) :
    ReportsUnless False (xs.mapM f) := by
  induction xs with
  | nil => exact not_false
  | cons x xs ih =>
    obtain ⟨hx, hxs⟩ := List.forall_mem_cons.mp h
    rw [List.mapM_cons]
    exact hx.bind fun _ _ => (ih hxs).bind fun _ _ => not_false

theorem orInvalid {c : Checked α} (h : c.HaltsIff Fault.IsUnhashable P) :
    ReportsUnless P (Document.orInvalid c) := by
  cases c <;> exact h

end ReportsUnless

/-! ## Reading documents -/

namespace Document

open Checked (HaltsIff)

theorem ofItems_reports (vs : List Value) :
    ReportsUnless (∃ v ∈ vs, RuleTrips v) (ofItems (vs.map data)) := by
  have hitem : ∀ d, HaltsIff Fault.IsUnhashable (∃ v, d = data v ∧ RuleTrips v) (item d) := by
    intro d
    cases d with
    | data v => exact (ruleSpec_haltsIff v).congr (by simp)
    | _ => exact nofun
  have hall := ((HaltsIff.each hitem (vs.map data)).under (.field "rules")).map RuleBook.mk
  refine (ReportsUnless.orInvalid hall).congr ?_
  simp

/-- Reading a document gives declarations or reports what is wrong with it, unless the check
trips. -/
theorem parse_reports (v : Value) : ReportsUnless (Trips v) (data v).parse := by
  change ReportsUnless (Trips v) (ofValue v)
  unfold ofValue
  split
  · rename_i es
    split
    · rename_i hrules
      obtain ⟨w, hw⟩ := Option.isSome_iff_exists.mp hrules
      refine (ReportsUnless.orInvalid (ruleBook_haltsIff _)).congr ?_
      have hlookup : Assoc.lookup (.text "rules") es = some w := hw
      cases hi : Schema.items? w <;> simp [Trips, declared, hw, hlookup, hi]
    · rename_i hrules
      have hlookup : Assoc.lookup (.text "rules") es = none :=
        Option.not_isSome_iff_eq_none.mp hrules
      refine ((ReportsUnless.orInvalid (ruleSpec_haltsIff _)).map _).congr ?_
      simp [Trips, declared, hlookup]
  · rename_i hmap
    have hdeclared : declared v = (Condition.sequence? v).getD [] := by
      cases v with
      | map es => exact absurd rfl (hmap es)
      | _ => rfl
    split
    · rename_i xs hxs
      refine (ofItems_reports xs).congr ?_
      simp [Trips, hdeclared, hxs]
    · rename_i hnone
      refine (ReportsUnless.malformed _).congr ?_
      simp [Trips, hdeclared, hnone]

theorem parse_declared {book : RuleBook} (h : (data v).parse = .ok book) :
    ∀ r ∈ book.rules, ∃ w ∈ declared v, ruleSpec w = .ok r := by
  change ofValue v = .ok book at h
  unfold ofValue at h
  split at h
  · rename_i es
    split at h
    · obtain ⟨es', hes, hread⟩ := Schema.of_record (Checked.toExcept_eq_ok.mp h)
      cases hes
      obtain ⟨rs, hrs, rfl⟩ := Checked.map_eq_ok.mp hread
      rcases Schema.defaulted_eq_ok.mp hrs with ⟨w, hw, hlist⟩ | ⟨-, rfl⟩
      · obtain ⟨xs, hxs, hall⟩ := Schema.list_eq_ok.mp hlist
        intro r hr
        obtain ⟨x, hx, hxr⟩ := exists_of_forall₂ hall.flip hr
        exact ⟨x, by simpa [declared, hw, hxs] using hx, hxr⟩
      · exact List.forall_mem_nil _
    · rename_i hrules
      obtain ⟨r, hr, rfl⟩ := map_eq_ok.mp h
      have hlookup : Assoc.lookup (.text "rules") es = none :=
        Option.not_isSome_iff_eq_none.mp hrules
      refine List.forall_mem_singleton.mpr ⟨.map es, ?_, Checked.toExcept_eq_ok.mp hr⟩
      simp [declared, hlookup]
  · rename_i hmap
    split at h
    · rename_i xs hxs
      obtain ⟨rs, hrs, rfl⟩ := Checked.map_eq_ok.mp (Checked.toExcept_eq_ok.mp h)
      have hall := Checked.each_eq_ok.mp (Checked.under_eq_ok.mp hrs)
      intro r hr
      obtain ⟨d, hd, hdr⟩ := exists_of_forall₂ hall.flip hr
      obtain ⟨x, hx, rfl⟩ := List.mem_map.mp hd
      refine ⟨x, ?_, hdr⟩
      cases v with
      | map es => exact absurd rfl (hmap es)
      | _ => simpa [declared, hxs] using hx
    · cases h

/-! ## Compiling what has been read -/

theorem patternSpec_reads {p : PatternSpec} (h : patternSpec v = .ok p) :
    ∃ cs, p.readConditions = .ok cs := by
  obtain ⟨es, -, hread⟩ := Schema.of_record h
  simp only [Checked.seq_eq_ok, Checked.map_eq_ok] at hread
  obtain ⟨_, _, ⟨_, atoms, ⟨_, _, ⟨_, -, rfl⟩, -, rfl⟩, hwhere, rfl⟩, -, rfl⟩ := hread
  rcases Schema.defaulted_eq_ok.mp hwhere with ⟨w, -, hw⟩ | ⟨-, rfl⟩
  · obtain ⟨as, -, hcheck⟩ := Checked.andThen_eq_ok.mp hw
    unfold checkConditions at hcheck
    split at hcheck
    · rename_i cs hcs
      cases hcheck
      exact ⟨cs, hcs⟩
    · cases hcheck
    · cases hcheck
  · exact ⟨[], rfl⟩

theorem exposed_returns (h : v.IsPlain) : ∃ w, exposed v = .ok w := by
  induction h with
  | @scalar v hs =>
    cases v with
    | none | bool | int | float | text => exact ⟨_, rfl⟩
    | _ => cases hs
  | list _ ih =>
    obtain ⟨ys, hys⟩ := exists_forall₂ ih
    exact ⟨.list ys, by rw [exposed, exposedAll_eq_ok.mpr hys]; rfl⟩
  | tuple _ ih =>
    obtain ⟨ys, hys⟩ := exists_forall₂ ih
    exact ⟨.tuple ys, by rw [exposed, exposedAll_eq_ok.mpr hys]; rfl⟩
  | @map es hk _ _ ih =>
    have hentries : ∀ e ∈ es, ∃ f : Value × Value,
        (exposed e.1 = .ok f.1 ∧ exposed e.2 = .ok f.2) ∧ f.1.hashable = true := by
      intro e he
      obtain ⟨s, hs⟩ := hk e he
      obtain ⟨w, hw⟩ := ih e he
      exact ⟨(.text s, w), ⟨by rw [hs]; rfl, hw⟩, rfl⟩
    obtain ⟨fs, hfs⟩ := exists_forall₂ hentries
    have hread : exposedEntries es = .ok fs := exposedEntries_eq_ok.mpr (hfs.imp fun _ _ h => h.1)
    have hkeys : fs.forM (fun f => f.1.checkHashable) = .ok () := by
      refine forM_eq_ok.mpr fun f hf => ?_
      obtain ⟨e, -, -, hhash⟩ := exists_of_forall₂ hfs.flip hf
      exact Value.checkHashable_eq_ok.mpr hhash
    refine ⟨.map (Assoc.update [] fs), ?_⟩
    simp only [exposed, Value.mapOf, bind_eq_ok, pure_eq_ok]
    exact ⟨fs, hread, (), hkeys, rfl⟩

/-- The variables that an effect which has been read asks for can be collected. -/
theorem effectSpec_reads {e : EffectSpec} (hv : v.IsPlain) (h : effectSpec v = .ok e) :
    ∃ names, e.variableNames = .ok names := by
  have hplain : e.template.IsPlain := by
    rcases effectSpec_template h with hnone | ⟨s, hs⟩ | ⟨es, k, rfl, hl⟩
    · rw [hnone]
      exact .scalar trivial
    · rw [hs]
      exact .scalar trivial
    · exact hv.of_lookup hl
  obtain ⟨w, hw⟩ := exposed_returns hplain
  exact ⟨_, map_eq_ok.mpr ⟨w, hw, rfl⟩⟩

/-- The conditions and the effects of a rule that has been read can be gone through. -/
theorem ruleSpec_reads {r : RuleSpec} (hv : v.IsPlain) (h : ruleSpec v = .ok r) :
    (∀ p ∈ r.patterns, ∃ cs, p.readConditions = .ok cs) ∧
      ∀ e ∈ r.effects, ∃ names, e.variableNames = .ok names := by
  obtain ⟨es, rfl, hread⟩ := Schema.of_record h
  simp only [Checked.seq_eq_ok, Checked.map_eq_ok] at hread
  obtain ⟨_, _, ⟨_, _, ⟨_, _, ⟨_, _, ⟨_, effects, ⟨_, patterns, ⟨_, -, rfl⟩, hpatterns, rfl⟩,
    heffects, rfl⟩, -, rfl⟩, -, rfl⟩, -, rfl⟩, -, rfl⟩ := hread
  constructor
  · obtain ⟨w, -, hw⟩ := Schema.required_eq_ok.mp hpatterns
    obtain ⟨xs, -, hall⟩ := Schema.list_eq_ok.mp (Schema.of_fullList hw)
    intro p hp
    obtain ⟨x, -, hxp⟩ := exists_of_forall₂ hall.flip hp
    exact patternSpec_reads hxp
  · rcases Schema.defaulted_eq_ok.mp heffects with ⟨w, hl, hw⟩ | ⟨-, rfl⟩
    · obtain ⟨xs, hxs, hall⟩ := Schema.list_eq_ok.mp hw
      intro e he
      obtain ⟨x, hx, hxe⟩ := exists_of_forall₂ hall.flip he
      exact effectSpec_reads ((hv.of_lookup hl).of_items hxs x hx) hxe
    · exact nofun

end Document

/-- A declared pattern is made of a kind, terms and a variable that are checked. -/
theorem Pattern.declare_reports (kind : Supplied Kind) (terms : List (Value × Value))
    (guard : Supplied Guard) (bind : Value) :
    ReportsUnless False (Pattern.declare kind (.map terms) [] guard bind) := by
  have hmake : ∀ k b fs, ReportsUnless False
      (if Term.allWellNamed fs then
        (make (.fit (matcherOf k fs b)) guard).mapError Error.definition
      else malformed .fieldName) := by
    intro k b fs
    split
    · exact .mapError _
    · exact .malformed _
  unfold declare
  refine (ReportsUnless.of_ok rfl).bind fun _ _ => ?_
  refine (ReportsUnless.mapError _).bind fun k _ => ?_
  refine (ReportsUnless.mapError _).bind fun b _ => ?_
  dsimp only
  split
  all_goals exact (ReportsUnless.of_ok rfl).bind fun _ _ => hmake k b _

theorem PatternSpec.compile_reports {rule : String} {i : Nat} {bound : List String}
    {p : PatternSpec} (h : ∃ cs, p.readConditions = .ok cs) :
    ReportsUnless False (p.compile rule i bound) := by
  obtain ⟨cs, hcs⟩ := h
  refine (ReportsUnless.of_ok hcs).bind fun _ _ => ?_
  dsimp only
  split
  · exact Pattern.declare_reports _ _ _ _
  · exact .malformed _

theorem PatternSpec.compileFrom_reports {rule : String} {ps : List PatternSpec}
    (h : ∀ p ∈ ps, ∃ cs, p.readConditions = .ok cs) (i : Nat) (bound : List String) :
    ReportsUnless False (compileFrom rule i bound ps) := by
  induction ps generalizing i bound with
  | nil => exact not_false
  | cons p ps ih =>
    obtain ⟨hp, hps⟩ := List.forall_mem_cons.mp h
    exact (compile_reports hp).bind fun _ _ => (ih hps _ _).bind fun _ _ => not_false

/-- A rule whose conditions and effects can be gone through compiles or is malformed. -/
theorem RuleSpec.compile_reports {r : RuleSpec}
    (hp : ∀ p ∈ r.patterns, ∃ cs, p.readConditions = .ok cs)
    (he : ∀ e ∈ r.effects, ∃ names, e.variableNames = .ok names) :
    ReportsUnless False r.compile := by
  obtain ⟨asked, hasked⟩ := exists_forall₂ he
  unfold compile
  refine (PatternSpec.compileFrom_reports hp 0 []).bind fun ps _ => ?_
  rw [mapM_eq_ok.mpr hasked]
  refine (ReportsUnless.of_ok rfl).bind fun _ _ => ?_
  dsimp only
  split
  · exact .mapError _
  · exact .malformed _

/-! ## Compiling documents -/

namespace Document

/-- Plain data given as a rule document is compiled to rules or reported as malformed, unless the
check trips over an operator; then that fault is all that comes out. -/
theorem compile_outcome (hv : v.IsPlain) :
    (¬ Trips v → (∃ rules, (data v).compile = .ok rules) ∨
      ∃ e, (data v).compile = .error (.definition e)) ∧
    (Trips v → ∃ cls, (data v).compile = .error (.fault (.unhashable cls))) := by
  have hreports : ReportsUnless (Trips v) (data v).compile := by
    refine (parse_reports v).bind fun book hbook => .mapM fun r hr => ?_
    obtain ⟨w, hw, hread⟩ := parse_declared hbook r hr
    obtain ⟨hp, he⟩ := ruleSpec_reads (declared_plain hv w hw) hread
    exact RuleSpec.compile_reports hp he
  cases hc : (data v).compile with
  | ok rules =>
    rw [hc] at hreports
    exact ⟨fun _ => .inl ⟨rules, rfl⟩, fun h => absurd h hreports⟩
  | error e =>
    rw [hc] at hreports
    cases e with
    | definition e => exact ⟨fun _ => .inr ⟨e, rfl⟩, fun h => absurd h hreports⟩
    | fault f =>
      obtain ⟨htrips, cls, rfl⟩ := hreports
      exact ⟨fun h => absurd htrips h, fun _ => ⟨cls, rfl⟩⟩
    | configuration | unknownRule | action => exact hreports.elim

namespace Sample

/-- A document of one rule on one pattern with these declared conditions. -/
def guarded (atoms : List Value) : Value := record [("rules", .list [record [
  ("name", .text "guarded"),
  ("when", .list [record [("fields", record [("id", .text "$who")]), ("where", .list atoms)]])]])]

theorem record_plain {fs : List (String × Value)} (hd : (fs.map (·.1)).Nodup)
    (hv : ∀ f ∈ fs, f.2.IsPlain) : (record fs).IsPlain := by
  refine .map ?_ ?_ ?_
  · exact List.forall_mem_map.mpr fun f _ => ⟨f.1, rfl⟩
  · exact List.forall_mem_map.mpr hv
  · refine List.pairwise_map.mpr ((List.pairwise_map.mp hd).imp ?_)
    intro f g hne hsame
    exact hne (Value.text.inj hsame)

theorem guarded_plain {atoms : List Value} (h : ∀ a ∈ atoms, a.IsPlain) :
    (guarded atoms).IsPlain := by
  have ht : ∀ s, (Value.text s).IsPlain := fun s => .scalar trivial
  have hfields : (record [("id", .text "$who")]).IsPlain :=
    record_plain (by simp) (by simp [ht])
  have hpattern : (record [("fields", record [("id", .text "$who")]),
      ("where", .list atoms)]).IsPlain :=
    record_plain (by simp) (by simpa [hfields] using Value.IsPlain.list h)
  refine record_plain (by simp) (List.forall_mem_singleton.mpr (.list ?_))
  refine List.forall_mem_singleton.mpr (record_plain (by simp) ?_)
  simp only [List.forall_mem_cons]
  exact ⟨ht _, .list (by simpa using hpattern), nofun⟩

def unreferenced : Value := guarded [.list [.text "eq", .list [.text "$who"], record []]]

def wrapped : Value := guarded [.list [.list [.text "eq"], .text "$who", .int 1]]

end Sample

/-- Containers for sides are reported. -/
theorem compile_outcome_unreferenced : Sample.unreferenced.IsPlain ∧ ¬ Trips Sample.unreferenced ∧
    ((∃ rules, (data Sample.unreferenced).compile = .ok rules) ∨
      ∃ e, (data Sample.unreferenced).compile = .error (.definition e)) := by
  have ht : ∀ s, (Value.text s).IsPlain := fun s => .scalar trivial
  have hplain : Sample.unreferenced.IsPlain := by
    refine Sample.guarded_plain (List.forall_mem_singleton.mpr (.list ?_))
    simp only [List.forall_mem_cons]
    refine ⟨ht _, .list (List.forall_mem_singleton.mpr (ht _)), ?_, nofun⟩
    exact Sample.record_plain .nil nofun
  have htrips : ¬ Trips Sample.unreferenced := by
    intro h
    obtain ⟨cls, hfault⟩ := (compile_outcome hplain).2 h
    have hreport : ∃ e, (data Sample.unreferenced).compile = .error (.definition e) := ⟨_, rfl⟩
    obtain ⟨e, he⟩ := hreport
    cases he.symm.trans hfault
  exact ⟨hplain, htrips, (compile_outcome hplain).1 htrips⟩

/-- A container for the operator is not reported: the fault of its missing hash comes out. -/
theorem compile_outcome_wrapped : Sample.wrapped.IsPlain ∧
    (data Sample.wrapped).compile = .error (.fault (.unhashable "list")) := by
  have ht : ∀ s, (Value.text s).IsPlain := fun s => .scalar trivial
  refine ⟨Sample.guarded_plain (List.forall_mem_singleton.mpr (.list ?_)), rfl⟩
  simp only [List.forall_mem_cons]
  exact ⟨.list (List.forall_mem_singleton.mpr (ht _)), ht _, .scalar trivial, nofun⟩

end Document

end RuleEngine
