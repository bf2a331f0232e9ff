import Mathlib.Data.List.Forall2
import RuleEngine.Proofs.Binding.Variables
import RuleEngine.Proofs.Value.Content
import RuleEngine.Template

/-!
# What rendering makes of a template

The check of a template collects the variables it refers to, and rendering puts their values in
(`Filled`). Both go through lists and maps, but only the check goes through tuples: rendering leaves
them as they are. So the two agree on a template, whatever the binding, exactly if no tuple in it
holds a reference or an escaped text (`Sealed`).

* `render_eq_error`: rendering only fails on a variable the check has counted; `render_returns`.
* `filled_of_render`: what is rendered is filled in, where nothing is sealed.
* `faithful_iff`: check and rendering agree on just these templates.
-/

namespace RuleEngine.Template

variable {b : Binding} {v w : Value} {xs : List Value} {es : List (Value × Value)} {x : String}
variable {P Q : Value → Prop}

/-! ## The places of a template -/

/-- The value is no list, no tuple and no map. -/
def IsFlat (v : Value) : Prop := v.sequence? = none ∧ v.entries? = none

theorem induct (list : ∀ xs, (∀ x ∈ xs, P x) → P (.list xs))
    (tuple : ∀ xs, (∀ x ∈ xs, P x) → P (.tuple xs))
    (map : ∀ es, (∀ e ∈ es, P e.2) → P (.map es)) (flat : ∀ v, IsFlat v → P v) (v : Value) :
    P v := by
  induction v using Value.induct with
  | list xs ih => exact list xs ih
  | tuple xs ih => exact tuple xs ih
  | map es ih => exact map es fun e he => (ih e he).2
  | atom v a ha =>
    refine flat v ?_
    cases v <;> first | exact ⟨rfl, rfl⟩ | cases ha
  | members v xs hm =>
    refine flat v ?_
    cases v <;> first | exact ⟨rfl, rfl⟩ | cases hm
  | object | key | method => exact flat _ ⟨rfl, rfl⟩

/-- The template or one of its parts, in lists, tuples and under keys, at any depth. -/
inductive Occurs (P : Value → Prop) : Value → Prop where
  | here {v : Value} (holds : P v) : Occurs P v
  | list {xs : List Value} {x : Value} (mem : x ∈ xs) (occurs : Occurs P x) : Occurs P (.list xs)
  | tuple {xs : List Value} {x : Value} (mem : x ∈ xs) (occurs : Occurs P x) : Occurs P (.tuple xs)
  | map {es : List (Value × Value)} {e : Value × Value} (mem : e ∈ es) (occurs : Occurs P e.2) :
      Occurs P (.map es)

theorem Occurs.mono (h : Occurs P v) (hPQ : ∀ w, P w → Occurs Q w) : Occurs Q v := by
  induction h with
  | here hw => exact hPQ _ hw
  | list hmem _ ih => exact .list hmem ih
  | tuple hmem _ ih => exact .tuple hmem ih
  | map hmem _ ih => exact .map hmem ih

theorem variablesAll_eq_flatMap (xs : List Value) : variablesAll xs = xs.flatMap variableNames := by
  induction xs with
  | nil => rfl
  | cons x xs ih => rw [variablesAll, ih, List.flatMap_cons]

theorem variablesEntries_eq_flatMap (es : List (Value × Value)) :
    variablesEntries es = es.flatMap fun e => variableNames e.2 := by
  induction es with
  | nil => rfl
  | cons e es ih => rw [variablesEntries, ih, List.flatMap_cons]

theorem variableNames_list : variableNames (.list xs) = xs.flatMap variableNames := by
  rw [variableNames, variablesAll_eq_flatMap]

theorem variableNames_tuple : variableNames (.tuple xs) = xs.flatMap variableNames := by
  rw [variableNames, variablesAll_eq_flatMap]

theorem variableNames_map : variableNames (.map es) = es.flatMap fun e => variableNames e.2 := by
  rw [variableNames, variablesEntries_eq_flatMap]

theorem variableNames_flat (hv : IsFlat v) : variableNames v = (Reference.name? v).toList := by
  cases v with
  | list | tuple => cases hv.1
  | map => cases hv.2
  | _ => rfl

theorem occurs_of_flat (hv : IsFlat v) (h : Occurs P v) : P v := by
  cases h with
  | here hP => exact hP
  | list => cases hv.1
  | tuple => cases hv.1
  | map => cases hv.2

/-- The variables that the check counts are those referred to somewhere. -/
theorem mem_variableNames : x ∈ variableNames v ↔
    Occurs (fun w => Reference.name? w = some x) v := by
  induction v using induct with
  | list xs ih =>
    rw [variableNames_list, List.mem_flatMap]
    constructor
    · rintro ⟨y, hy, hx⟩
      exact .list hy ((ih y hy).mp hx)
    · intro h
      cases h with
      | here hn => cases hn
      | list hy h => exact ⟨_, hy, (ih _ hy).mpr h⟩
  | tuple xs ih =>
    rw [variableNames_tuple, List.mem_flatMap]
    constructor
    · rintro ⟨y, hy, hx⟩
      exact .tuple hy ((ih y hy).mp hx)
    · intro h
      cases h with
      | here hn => cases hn
      | tuple hy h => exact ⟨_, hy, (ih _ hy).mpr h⟩
  | map es ih =>
    rw [variableNames_map, List.mem_flatMap]
    constructor
    · rintro ⟨e, he, hx⟩
      exact .map he ((ih e he).mp hx)
    · intro h
      cases h with
      | here hn => cases hn
      | map he h => exact ⟨_, he, (ih _ he).mpr h⟩
  | flat v hv =>
    rw [variableNames_flat hv, Option.mem_toList]
    exact ⟨fun hx => .here hx, occurs_of_flat hv⟩

/-! ## Templates filled in -/

/-- A value that a template stands for under a binding. References are replaced by what they are
bound to, other texts that are escaped lose their first character, and everything else stays: keys,
the number of items and their order. -/
inductive Filled (b : Binding) : Value → Value → Prop where
  | reference {v w : Value} {x : String} (name : Reference.name? v = some x)
      (bound : b.read x = .ok w) : Filled b v w
  | other {v : Value} (flat : IsFlat v) (name : Reference.name? v = none) :
      Filled b v (Reference.unescape v)
  | list {xs ys : List Value} (length : xs.length = ys.length)
      (items : ∀ x y, (x, y) ∈ xs.zip ys → Filled b x y) : Filled b (.list xs) (.list ys)
  | tuple {xs ys : List Value} (length : xs.length = ys.length)
      (items : ∀ x y, (x, y) ∈ xs.zip ys → Filled b x y) : Filled b (.tuple xs) (.tuple ys)
  | map {es fs : List (Value × Value)} (length : es.length = fs.length)
      (keys : ∀ e f, (e, f) ∈ es.zip fs → f.1 = e.1)
      (values : ∀ e f, (e, f) ∈ es.zip fs → Filled b e.2 f.2) : Filled b (.map es) (.map fs)

theorem filled_list : Filled b (.list xs) w ↔
    ∃ ys, w = .list ys ∧ List.Forall₂ (Filled b) xs ys := by
  constructor
  · intro h
    cases h with
    | reference hn => cases hn
    | other hflat => cases hflat.1
    | list hlength hitems => exact ⟨_, rfl, List.forall₂_iff_zip.mpr ⟨hlength, hitems _ _⟩⟩
  · rintro ⟨ys, rfl, h⟩
    obtain ⟨hlength, hitems⟩ := List.forall₂_iff_zip.mp h
    exact .list hlength fun _ _ => hitems

theorem filled_tuple : Filled b (.tuple xs) w ↔
    ∃ ys, w = .tuple ys ∧ List.Forall₂ (Filled b) xs ys := by
  constructor
  · intro h
    cases h with
    | reference hn => cases hn
    | other hflat => cases hflat.1
    | tuple hlength hitems => exact ⟨_, rfl, List.forall₂_iff_zip.mpr ⟨hlength, hitems _ _⟩⟩
  · rintro ⟨ys, rfl, h⟩
    obtain ⟨hlength, hitems⟩ := List.forall₂_iff_zip.mp h
    exact .tuple hlength fun _ _ => hitems

theorem filled_map : Filled b (.map es) w ↔
    ∃ fs, w = .map fs ∧ List.Forall₂ (fun e f => f.1 = e.1 ∧ Filled b e.2 f.2) es fs := by
  constructor
  · intro h
    cases h with
    | reference hn => cases hn
    | other hflat => cases hflat.2
    | map hlength hkeys hvalues =>
      exact ⟨_, rfl, List.forall₂_iff_zip.mpr
        ⟨hlength, fun hmem => ⟨hkeys _ _ hmem, hvalues _ _ hmem⟩⟩⟩
  · rintro ⟨fs, rfl, h⟩
    obtain ⟨hlength, hentries⟩ := List.forall₂_iff_zip.mp h
    exact .map hlength (fun _ _ hmem => (hentries hmem).1) fun _ _ hmem => (hentries hmem).2

theorem filled_flat (hv : IsFlat v) : Filled b v w ↔
    (Reference.name? v).elim (.ok (Reference.unescape v)) b.read = .ok w := by
  cases hn : Reference.name? v with
  | none =>
    refine ⟨fun h => ?_, fun h => Except.ok.inj h ▸ .other hv hn⟩
    cases h with
    | reference hx => cases hn.symm.trans hx
    | other => rfl
    | list => cases hv.1
    | tuple => cases hv.1
    | map => cases hv.2
  | some x =>
    refine ⟨fun h => ?_, .reference hn⟩
    cases h with
    | reference hx hbound =>
      obtain rfl := Option.some.inj (hn.symm.trans hx)
      exact hbound
    | other _ hx => cases hn.symm.trans hx
    | list => cases hv.1
    | tuple => cases hv.1
    | map => cases hv.2

/-- A template can only be filled in where all its variables are bound. -/
theorem Filled.binds (h : Filled b v w) : ∀ x ∈ variableNames v, b.Binds x := by
  intro x hx
  induction mem_variableNames.mp hx generalizing w with
  | here hn =>
    cases h with
    | reference hy hbound =>
      obtain rfl := Option.some.inj (hn.symm.trans hy)
      exact ⟨_, hbound⟩
    | other _ hy => cases hn.symm.trans hy
    | list | tuple | map => cases hn
  | list hmem hoccurs ih =>
    obtain ⟨ys, rfl, hys⟩ := filled_list.mp h
    obtain ⟨y, -, hy⟩ := exists_of_forall₂ hys hmem
    exact ih hy (mem_variableNames.mpr hoccurs)
  | tuple hmem hoccurs ih =>
    obtain ⟨ys, rfl, hys⟩ := filled_tuple.mp h
    obtain ⟨y, -, hy⟩ := exists_of_forall₂ hys hmem
    exact ih hy (mem_variableNames.mpr hoccurs)
  | map hmem hoccurs ih =>
    obtain ⟨fs, rfl, hfs⟩ := filled_map.mp h
    obtain ⟨f, -, -, hf⟩ := exists_of_forall₂ hfs hmem
    exact ih hf (mem_variableNames.mpr hoccurs)

/-! ## Rendering -/

theorem renderAll_eq_mapM (b : Binding) (xs : List Value) :
    renderAll b xs = xs.mapM (render b) := by
  induction xs with
  | nil => rfl
  | cons x xs ih => rw [renderAll, List.mapM_cons, ih]

theorem renderEntries_eq_mapM (b : Binding) (es : List (Value × Value)) :
    renderEntries b es = es.mapM fun e => (render b e.2).map fun w => (e.1, w) := by
  induction es with
  | nil => rfl
  | cons e es ih =>
    rw [renderEntries, List.mapM_cons, ih]
    cases render b e.2 <;> rfl

theorem render_flat (hv : IsFlat v) :
    render b v = (Reference.name? v).elim (.ok (Reference.unescape v)) b.read := by
  cases v with
  | list | tuple => cases hv.1
  | map => cases hv.2
  | _ =>
    rw [render]
    · cases Reference.name? _ <;> rfl
    all_goals simp

theorem render_list_eq_ok : render b (.list xs) = .ok w ↔
    ∃ ys, w = .list ys ∧ List.Forall₂ (fun x y => render b x = .ok y) xs ys := by
  rw [render, renderAll_eq_mapM, bind_eq_ok]
  simp only [mapM_eq_ok, pure_eq_ok]
  exact exists_congr fun ys => and_comm.trans (and_congr_left' eq_comm)

theorem render_map_eq_ok : render b (.map es) = .ok w ↔
    ∃ fs, w = .map fs ∧ List.Forall₂ (fun e f => f.1 = e.1 ∧ render b e.2 = .ok f.2) es fs := by
  have hentry (e f : Value × Value) : ((render b e.2).map fun w => (e.1, w)) = .ok f ↔
      f.1 = e.1 ∧ render b e.2 = .ok f.2 := by
    rw [map_eq_ok]
    constructor
    · rintro ⟨w, hw, rfl⟩
      exact ⟨rfl, hw⟩
    · rintro ⟨hkey, hw⟩
      exact ⟨f.2, hw, hkey ▸ rfl⟩
  rw [render, renderEntries_eq_mapM, bind_eq_ok]
  simp only [mapM_eq_ok, pure_eq_ok, hentry]
  exact exists_congr fun fs => and_comm.trans (and_congr_left' eq_comm)

/-- Rendering only fails on a variable that is referred to and not bound. -/
theorem render_eq_error {f : Fault} (h : render b v = .error f) :
    ∃ x ∈ variableNames v, f = .missingKey (.text x) ∧ ¬ b.Binds x := by
  induction v using induct generalizing f with
  | list xs ih =>
    rw [render, renderAll_eq_mapM, bind_eq_error] at h
    obtain h | ⟨_, -, ⟨⟩⟩ := h
    obtain ⟨before, y, after, rfl, -, hy⟩ := mapM_eq_error.mp h
    have hmem : y ∈ before ++ y :: after := by simp
    obtain ⟨x, hx, hmissing⟩ := ih y hmem hy
    exact ⟨x, mem_variableNames.mpr (.list hmem (mem_variableNames.mp hx)), hmissing⟩
  | tuple xs => cases h
  | map es ih =>
    rw [render, renderEntries_eq_mapM, bind_eq_error] at h
    obtain h | ⟨_, -, ⟨⟩⟩ := h
    obtain ⟨before, e, after, rfl, -, he⟩ := mapM_eq_error.mp h
    have hmem : e ∈ before ++ e :: after := by simp
    obtain ⟨x, hx, hmissing⟩ := ih e hmem (map_eq_error.mp he)
    exact ⟨x, mem_variableNames.mpr (.map hmem (mem_variableNames.mp hx)), hmissing⟩
  | flat v hv =>
    rw [render_flat hv] at h
    cases hn : Reference.name? v with
    | none =>
      rw [hn] at h
      cases h
    | some x =>
      rw [hn, Option.elim_some] at h
      exact ⟨x, mem_variableNames.mpr (.here hn), Binding.read_eq_error.mp h⟩

theorem render_returns (h : ∀ x ∈ variableNames v, b.Binds x) : ∃ w, render b v = .ok w := by
  cases hr : render b v with
  | ok w => exact ⟨w, rfl⟩
  | error f =>
    obtain ⟨x, hx, -, hunbound⟩ := render_eq_error hr
    exact absurd (h x hx) hunbound

/-! ## Where check and rendering agree -/

/-- The value is a reference, or a text that is escaped. -/
def IsNotation (v : Value) : Prop := (Reference.name? v).isSome ∨ Reference.unescape v ≠ v

/-- The value is a tuple that holds references or escaped texts. -/
def Sealed (v : Value) : Prop := (∃ xs, v = .tuple xs) ∧ Occurs IsNotation v

theorem filled_self (h : ¬ Occurs IsNotation v) : Filled b v v := by
  induction v using induct with
  | list xs ih =>
    exact filled_list.mpr
      ⟨xs, rfl, List.forall₂_same.mpr fun x hx => ih x hx fun k => h (.list hx k)⟩
  | tuple xs ih =>
    exact filled_tuple.mpr
      ⟨xs, rfl, List.forall₂_same.mpr fun x hx => ih x hx fun k => h (.tuple hx k)⟩
  | map es ih =>
    exact filled_map.mpr
      ⟨es, rfl, List.forall₂_same.mpr fun e he => ⟨rfl, ih e he fun k => h (.map he k)⟩⟩
  | flat v hv =>
    obtain ⟨hname, hescape⟩ := not_or.mp fun k => h (.here k)
    rw [filled_flat hv, Option.not_isSome_iff_eq_none.mp hname]
    exact congrArg _ (not_not.mp hescape)

theorem render_self (h : ¬ Occurs IsNotation v) : render b v = .ok v := by
  induction v using induct with
  | list xs ih =>
    exact render_list_eq_ok.mpr
      ⟨xs, rfl, List.forall₂_same.mpr fun x hx => ih x hx fun k => h (.list hx k)⟩
  | tuple xs => rfl
  | map es ih =>
    exact render_map_eq_ok.mpr
      ⟨es, rfl, List.forall₂_same.mpr fun e he => ⟨rfl, ih e he fun k => h (.map he k)⟩⟩
  | flat v hv => exact render_flat hv ▸ (filled_flat (b := b) hv).mp (filled_self h)

theorem variableNames_eq_nil (h : ¬ Occurs IsNotation v) : variableNames v = [] := by
  refine List.eq_nil_iff_forall_not_mem.mpr fun x hx => h ?_
  refine (mem_variableNames.mp hx).mono fun w hw => .here (.inl ?_)
  rw [hw]
  rfl

/-- What stands for itself has no notation, provided that no variable stands for a reference. -/
theorem not_occurs_of_filled_self (hb : ∀ x u, b.read x = .ok u → Reference.name? u = none)
    (h : Filled b v v) : ¬ Occurs IsNotation v := by
  induction v using induct with
  | list xs ih =>
    obtain ⟨_, ⟨⟩, hitems⟩ := filled_list.mp h
    intro hoccurs
    cases hoccurs with
    | here hv => exact hv.elim nofun fun hne => hne rfl
    | list hmem hx => exact ih _ hmem (List.forall₂_same.mp hitems _ hmem) hx
  | tuple xs ih =>
    obtain ⟨_, ⟨⟩, hitems⟩ := filled_tuple.mp h
    intro hoccurs
    cases hoccurs with
    | here hv => exact hv.elim nofun fun hne => hne rfl
    | tuple hmem hx => exact ih _ hmem (List.forall₂_same.mp hitems _ hmem) hx
  | map es ih =>
    obtain ⟨_, ⟨⟩, hentries⟩ := filled_map.mp h
    intro hoccurs
    cases hoccurs with
    | here hv => exact hv.elim nofun fun hne => hne rfl
    | map hmem hx => exact ih _ hmem (List.forall₂_same.mp hentries _ hmem).2 hx
  | flat v hv =>
    intro hoccurs
    rw [filled_flat hv] at h
    cases hn : Reference.name? v with
    | none =>
      rw [hn] at h
      have hsame : Reference.unescape v = v := Except.ok.inj h
      rcases occurs_of_flat hv hoccurs with hname | hescape
      · rw [hn] at hname
        cases hname
      · exact hescape hsame
    | some x =>
      rw [hn] at h
      cases hn.symm.trans (hb x v h)

/-- What is rendered is filled in, provided that nothing with notation is sealed. -/
theorem filled_of_render (hv : ¬ Occurs Sealed v) (h : render b v = .ok w) : Filled b v w := by
  induction v using induct generalizing w with
  | list xs ih =>
    obtain ⟨ys, rfl, hys⟩ := render_list_eq_ok.mp h
    refine filled_list.mpr ⟨ys, rfl, forall₂_of_mem hys fun x hx y _ hxy => ?_⟩
    exact ih x hx (fun k => hv (.list hx k)) hxy
  | tuple xs =>
    obtain rfl : .tuple xs = w := Except.ok.inj h
    exact filled_self fun k => hv (.here ⟨⟨xs, rfl⟩, k⟩)
  | map es ih =>
    obtain ⟨fs, rfl, hfs⟩ := render_map_eq_ok.mp h
    refine filled_map.mpr ⟨fs, rfl, forall₂_of_mem hfs fun e he f _ hef => ⟨hef.1, ?_⟩⟩
    exact ih e he (fun k => hv (.map he k)) hef.2
  | flat v hflat =>
    rw [render_flat hflat] at h
    exact (filled_flat hflat).mpr h

/-- Where something with notation is sealed, what is rendered is not filled in, provided that no
variable stands for a reference. -/
theorem not_sealed_of_filled (hb : ∀ x u, b.read x = .ok u → Reference.name? u = none)
    (h : render b v = .ok w) (hw : Filled b v w) : ¬ Occurs Sealed v := by
  induction v using induct generalizing w with
  | list xs ih =>
    obtain ⟨ys, rfl, hys⟩ := render_list_eq_ok.mp h
    obtain ⟨_, ⟨⟩, hitems⟩ := filled_list.mp hw
    intro hoccurs
    cases hoccurs with
    | here hv => obtain ⟨⟨_, ⟨⟩⟩, -⟩ := hv
    | list hmem hx =>
      have hboth := List.Forall₂.mp (fun _ _ => And.intro) hys hitems
      obtain ⟨y, -, hxy, hy⟩ := exists_of_forall₂ hboth hmem
      exact ih _ hmem hxy hy hx
  | tuple xs =>
    obtain rfl : .tuple xs = w := Except.ok.inj h
    exact fun k => not_occurs_of_filled_self hb hw (k.mono fun u hu => hu.2)
  | map es ih =>
    obtain ⟨fs, rfl, hfs⟩ := render_map_eq_ok.mp h
    obtain ⟨_, ⟨⟩, hentries⟩ := filled_map.mp hw
    intro hoccurs
    cases hoccurs with
    | here hv => obtain ⟨⟨_, ⟨⟩⟩, -⟩ := hv
    | map hmem hx =>
      have hboth := List.Forall₂.mp (fun _ _ => And.intro) hfs hentries
      obtain ⟨f, -, hef, hf⟩ := exists_of_forall₂ hboth hmem
      exact ih _ hmem hef.2 hf.2 hx
  | flat v hflat =>
    intro hoccurs
    obtain ⟨⟨xs, rfl⟩, -⟩ := occurs_of_flat hflat hoccurs
    cases hflat.1

/-- Under a binding, rendering does what the check announces. It fails for want of a key exactly if
one of the variables counted is not bound, and otherwise gives the template filled in. -/
structure Faithful (b : Binding) (t : Value) : Prop where
  raises_iff : (∃ f, render b t = .error f ∧ f.label = "KeyError") ↔
    ∃ x ∈ variableNames t, ¬ b.Binds x
  fills : (∀ x ∈ variableNames t, b.Binds x) → ∃ w, render b t = .ok w ∧ Filled b t w

theorem faithful_of_not_sealed (hv : ¬ Occurs Sealed v) : Faithful b v where
  raises_iff := by
    constructor
    · rintro ⟨f, hf, -⟩
      obtain ⟨x, hx, -, hunbound⟩ := render_eq_error hf
      exact ⟨x, hx, hunbound⟩
    · rintro ⟨x, hx, hunbound⟩
      cases hr : render b v with
      | ok w => exact absurd ((filled_of_render hv hr).binds x hx) hunbound
      | error f =>
        obtain ⟨y, -, rfl, -⟩ := render_eq_error hr
        exact ⟨_, rfl, rfl⟩
  fills hbound := by
    obtain ⟨w, hw⟩ := render_returns hbound
    exact ⟨w, hw, filled_of_render hv hw⟩

/-- Check and rendering agree on a template under all bindings exactly if no tuple in it holds a
reference or an escaped text. -/
theorem faithful_iff {t : Value} : (∀ b, Faithful b t) ↔ ¬ Occurs Sealed t := by
  constructor
  · intro h
    -- all variables are bound, to something that is no reference itself
    let b : Binding := (variableNames t).map fun x => (.text x, .none)
    have hbinds : ∀ x ∈ variableNames t, b.Binds x := fun x hx =>
      Binding.binds_iff.mpr ⟨(.text x, .none), List.mem_map_of_mem hx, rfl⟩
    have hnone : ∀ x u, b.read x = .ok u → Reference.name? u = none := by
      intro x u hu
      obtain ⟨e, he, -, rfl⟩ := Binding.mem_of_read hu
      obtain ⟨y, -, rfl⟩ := List.mem_map.mp he
      rfl
    obtain ⟨w, hw, hfilled⟩ := (h b).fills hbinds
    exact not_sealed_of_filled hnone hw hfilled
  · exact fun h b => faithful_of_not_sealed h

/-- A reference in a tuple is counted, but it stays whether or not it is bound. -/
theorem faithful_tuple : variableNames (.tuple [.text "$x"]) = ["x"] ∧
    render [] (.tuple [.text "$x"]) = .ok (.tuple [.text "$x"]) ∧
    render [(.text "x", .int 1)] (.tuple [.text "$x"]) = .ok (.tuple [.text "$x"]) ∧
    ¬ Faithful [] (.tuple [.text "$x"]) ∧
    ¬ Faithful [(.text "x", .int 1)] (.tuple [.text "$x"]) := by
  have hnone : ∀ x : String, ¬ Binding.Binds [] x := fun x hx => by
    obtain ⟨e, he, -⟩ := Binding.binds_iff.mp hx
    cases he
  refine ⟨rfl, rfl, rfl, fun h => ?_, fun h => ?_⟩
  · obtain ⟨f, hf, -⟩ := h.raises_iff.mpr ⟨"x", List.mem_singleton_self _, hnone "x"⟩
    cases hf
  · obtain ⟨w, hw, hfilled⟩ := h.fills fun x hx => ⟨.int 1, by rw [List.mem_singleton.mp hx]; rfl⟩
    obtain rfl : Value.tuple [.text "$x"] = w := Except.ok.inj hw
    obtain ⟨_, ⟨⟩, hitems⟩ := filled_tuple.mp hfilled
    have hitem := List.forall₂_same.mp hitems (.text "$x") List.mem_cons_self
    rw [filled_flat ⟨rfl, rfl⟩] at hitem
    cases hitem

end RuleEngine.Template
