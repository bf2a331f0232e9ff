import RuleEngine.Proofs.Traced
import RuleEngine.Session.Basic

/-!
# Nested sources

Lists and tuples of sources may be nested at will. A source has the rules of its leaves, one leaf
after the other, and fails as the first leaf does that fails (`compile_eq_collectAll`): each list is
gone through in order and must have rules, but a list that is not empty has some as soon as each of
its items does, so that no list but an empty one ever fails by itself. What a session is built of is
gone through in a loop of its own, to the same effect (`IsGroup.compileAll_eq`).

* `nesting_irrelevant`: the rules and errors of nested sources, and the sessions built of them.
-/

namespace RuleEngine

namespace Source

variable {files : Files} {s t x : Source} {xs ys : List Source} {rs : List Rule} {e : Error}

/-! ## Leaves -/

mutual

/-- The leaves of nested lists and tuples, from left to right. What is neither is a leaf, and so is
a list or tuple without items. -/
def leaves : Source → List Source
  | .list xs => if xs.isEmpty then [.list []] else leavesAll xs
  | .tuple xs => if xs.isEmpty then [.tuple []] else leavesAll xs
  | s => [s]
termination_by structural s => s

def leavesAll : List Source → List Source
  | [] => []
  | x :: xs => leaves x ++ leavesAll xs
termination_by structural xs => xs

end

/-- A list or tuple with items. -/
inductive IsGroup : Source → Prop where
  | list (x : Source) (xs : List Source) : IsGroup (.list (x :: xs))
  | tuple (x : Source) (xs : List Source) : IsGroup (.tuple (x :: xs))

/-! ## One source after the other -/

theorem ne_nil_of_compile (h : s.compile files = .ok rs) : rs ≠ [] := by
  obtain ⟨found, -, h⟩ := bind_eq_ok.mp h
  split at h
  · obtain ⟨_, -, h⟩ := bind_eq_ok.mp h
    cases h
  · rename_i hsome
    obtain rfl := pure_eq_ok.mp h
    simpa using hsome

theorem collectAll_cons : collectAll files (x :: xs) = (do
    let rs ← x.compile files
    let rest ← collectAll files xs
    return rs ++ rest) := rfl

theorem collectAll_singleton : collectAll files [s] = s.compile files := by
  rw [collectAll_cons, collectAll]
  cases s.compile files with
  | error e => rfl
  | ok rs => exact congrArg Except.ok (List.append_nil rs)

theorem collectAll_append : collectAll files (xs ++ ys) = (do
    let rs ← collectAll files xs
    let rest ← collectAll files ys
    return rs ++ rest) := by
  induction xs with
  | nil =>
    rw [List.nil_append, collectAll]
    cases collectAll files ys <;> rfl
  | cons x xs ih => simp only [List.cons_append, collectAll_cons, ih, bind_assoc, pure_bind,
      List.append_assoc]

theorem collectAll_eq_mapM :
    collectAll files xs = (xs.mapM (compile files)).map List.flatten := by
  induction xs with
  | nil => rfl
  | cons x xs ih =>
    rw [collectAll_cons, ih, List.mapM_cons]
    cases x.compile files with
    | error e => rfl
    | ok rs => cases xs.mapM (compile files) <;> rfl

/-! ## Going through a tree -/

theorem nonempty_collectAll : nonempty s (collectAll files (x :: xs)) =
    collectAll files (x :: xs) := by
  cases hc : collectAll files (x :: xs) with
  | error e => rfl
  | ok rs =>
    obtain ⟨found, hfound, hrest⟩ := bind_eq_ok.mp hc
    obtain ⟨rest, -, hrs⟩ := bind_eq_ok.mp hrest
    obtain rfl := pure_eq_ok.mp hrs
    have hne : found ++ rest ≠ [] := by simp [ne_nil_of_compile hfound]
    exact if_neg (by simpa using hne)

mutual

/-- A source has the rules of its leaves in order. -/
theorem compile_eq_collectAll (files : Files) (s : Source) :
    s.compile files = collectAll files s.leaves := by
  cases s with
  | list xs =>
    cases xs with
    | nil => exact collectAll_singleton.symm
    | cons x xs => exact nonempty_collectAll.trans (collectAll_eq_leavesAll files (x :: xs))
  | tuple xs =>
    cases xs with
    | nil => exact collectAll_singleton.symm
    | cons x xs => exact nonempty_collectAll.trans (collectAll_eq_leavesAll files (x :: xs))
  | _ => exact collectAll_singleton.symm
termination_by structural s

theorem collectAll_eq_leavesAll (files : Files) (xs : List Source) :
    collectAll files xs = collectAll files (leavesAll xs) := by
  cases xs with
  | nil => rfl
  | cons x xs =>
    rw [collectAll_cons, compile_eq_collectAll files x, collectAll_eq_leavesAll files xs,
      ← collectAll_append]
    rfl
termination_by structural xs

end

theorem foldlM_eq_collectAll (acc : List Rule) :
    xs.foldlM (fun acc x => do return acc ++ (← x.compile files)) acc =
      (collectAll files xs).map (acc ++ ·) := by
  induction xs generalizing acc with
  | nil => exact congrArg Except.ok (List.append_nil acc).symm
  | cons x xs ih =>
    rw [List.foldlM_cons, collectAll_cons]
    cases x.compile files with
    | error e => rfl
    | ok rs =>
      change xs.foldlM _ (acc ++ rs) = _
      rw [ih]
      cases collectAll files xs with
      | error e => rfl
      | ok rest => exact congrArg Except.ok (List.append_assoc acc rs rest)

/-- The sources of a session are gone through as those of a list are. -/
theorem IsGroup.compileAll_eq (h : s.IsGroup) : s.compileAll files = s.compile files := by
  have hloop (x : Source) (xs : List Source) :
      (x :: xs).foldlM (fun acc x => do return acc ++ (← x.compile files)) [] =
        collectAll files (x :: xs) := by
    rw [foldlM_eq_collectAll]
    cases collectAll files (x :: xs) <;> rfl
  cases h with
  | list x xs => exact (hloop x xs).trans nonempty_collectAll.symm
  | tuple x xs => exact (hloop x xs).trans nonempty_collectAll.symm

theorem compile_eq_ok : s.compile files = .ok rs ↔
    ∃ rss, List.Forall₂ (fun x rs => x.compile files = .ok rs) s.leaves rss ∧ rs = rss.flatten := by
  rw [compile_eq_collectAll, collectAll_eq_mapM, map_eq_ok]
  exact exists_congr fun rss => and_congr mapM_eq_ok eq_comm

theorem compile_eq_error : s.compile files = .error e ↔ ∃ before x after,
    s.leaves = before ++ x :: after ∧ (∀ y ∈ before, ∃ rs, y.compile files = .ok rs) ∧
      x.compile files = .error e := by
  rw [compile_eq_collectAll, collectAll_eq_mapM, map_eq_error, mapM_eq_error]

/-- Groups with the same leaves have the same rules, or fail alike. -/
theorem IsGroup.compileAll_congr (hs : s.IsGroup) (ht : t.IsGroup) (h : t.leaves = s.leaves) :
    t.compileAll files = s.compileAll files := by
  rw [hs.compileAll_eq, ht.compileAll_eq, compile_eq_collectAll, compile_eq_collectAll, h]

end Source

namespace Session

variable {files : Files} {s t : Source}

theorem isMissing_of_isGroup (h : s.IsGroup) : isMissing s = false := by
  cases h <;> rfl

theorem splitRules_some (base : OptionsBase) (s : Source) :
    splitRules base (some s) = ((splitRules base none).1, some s) := by
  unfold splitRules
  split
  · split <;> rfl
  · split <;> rfl
  · rfl

/-! ## Sessions of other groups with the same rules -/

section Congr

variable (hs : s.IsGroup) (ht : t.IsGroup)

include hs ht

theorem chooseRules_bind_congr {α : Type} {k : Source → Except Error α} (hk : k t = k s)
    (o : Option Source) : (chooseRules t o >>= k) = (chooseRules s o >>= k) := by
  cases o with
  | none => exact hk
  | some u =>
    simp only [chooseRules, isMissing_of_isGroup hs, isMissing_of_isGroup ht]
    cases isMissing u with
    | true => exact hk
    | false => rfl

theorem chooseRules_some_bind_congr {α : Type} {k : Source → Except Error α} (hk : k t = k s)
    (rules : Source) : (chooseRules rules (some t) >>= k) = (chooseRules rules (some s) >>= k) := by
  simp only [chooseRules, isMissing_of_isGroup hs, isMissing_of_isGroup ht]
  cases isMissing rules with
  | true => exact hk
  | false => rfl

variable (h : t.compileAll files = s.compileAll files) (base : OptionsBase)
  (overrides : OptionEntries)

include h

theorem new_congr (optionRules : Option Source) :
    new files t base optionRules overrides = new files s base optionRules overrides := by
  unfold new
  refine congrArg (_ >>= ·) (funext fun _ => ?_)
  refine chooseRules_bind_congr hs ht ?_ _
  simp only [h]

theorem new_option_congr (rules : Source) :
    new files rules base (some t) overrides = new files rules base (some s) overrides := by
  unfold new
  refine congrArg (_ >>= ·) (funext fun _ => ?_)
  rw [splitRules_some, splitRules_some base s]
  refine chooseRules_some_bind_congr hs ht ?_ _
  simp only [h]

end Congr

end Session

namespace Source

variable {s : Source}

/-- How sources are nested in lists and tuples plays no part. A group has the rules of its leaves,
from left to right, if every leaf has some, and otherwise it fails as its leftmost leaf does that
fails, which an empty list does by itself. The sources of a session are compiled alike, so that
sessions of two groups with the same leaves are the same, or fail alike, whether their rules are
given as an argument or as an option. -/
theorem nesting_irrelevant (files : Files) (hs : s.IsGroup) :
    s.compileAll files = s.compile files ∧
    (∀ rs, s.compile files = .ok rs ↔ ∃ rss,
      List.Forall₂ (fun x rs => x.compile files = .ok rs) s.leaves rss ∧ rs = rss.flatten) ∧
    (∀ e, s.compile files = .error e ↔ ∃ before x after, s.leaves = before ++ x :: after ∧
      (∀ y ∈ before, ∃ rs, y.compile files = .ok rs) ∧ x.compile files = .error e) ∧
    compile files (.list []) = .error (.configuration (.noRules "list []")) ∧
    compile files (.tuple []) = .error (.configuration (.noRules "tuple ()")) ∧
    ∀ t : Source, t.IsGroup → t.leaves = s.leaves → ∀ base overrides,
      (∀ optionRules, Session.new files t base optionRules overrides =
        Session.new files s base optionRules overrides) ∧
      ∀ rules, Session.new files rules base (some t) overrides =
        Session.new files rules base (some s) overrides := by
  refine ⟨hs.compileAll_eq, fun rs => compile_eq_ok, fun e => compile_eq_error, rfl, rfl, ?_⟩
  intro t ht hleaves base overrides
  have hsame : t.compileAll files = s.compileAll files := hs.compileAll_congr ht hleaves
  exact ⟨Session.new_congr hs ht hsame base overrides,
    Session.new_option_congr hs ht hsame base overrides⟩

def Sample.declaring (name : String) : Source :=
  .function ⟨some name, "hall", some ⟨none, [⟨fun _ => .ok .none, none⟩], .int 0, .bool false,
    .none, .none⟩, fun _ => .ok (.effects [])⟩

def Sample.deep : Source :=
  .list [.tuple [.list [Sample.declaring "open"]], Sample.declaring "close"]

def Sample.flat : Source := .tuple [Sample.declaring "open", Sample.declaring "close"]

/-- A rule, and then an empty tuple inside a list, and an empty list. -/
def Sample.hollow : Source := .list [Sample.declaring "open", .list [.tuple []], .list []]

/-- Both nestings give the two rules, and so do the sessions built of them. What is hollow fails at
the tuple. -/
theorem nesting_irrelevant_hall :
    Sample.deep.IsGroup ∧ Sample.flat.IsGroup ∧ Sample.flat.leaves = Sample.deep.leaves ∧
    (Sample.deep.compile fun _ => none).toOption.map (·.map (·.name.text)) =
      some ["open", "close"] ∧
    (Sample.deep.compileAll fun _ => none) = Sample.deep.compile (fun _ => none) ∧
    (∀ base overrides, Session.new (fun _ => none) Sample.flat base none overrides =
      Session.new (fun _ => none) Sample.deep base none overrides) ∧
    Sample.hollow.IsGroup ∧
    Sample.hollow.leaves = [Sample.declaring "open", .tuple [], .list []] ∧
    Sample.hollow.compile (fun _ => none) = .error (.configuration (.noRules "tuple ()")) := by
  have hdeep : Sample.deep.IsGroup := .list _ _
  have hflat : Sample.flat.IsGroup := .tuple _ _
  have hhollow : Sample.hollow.IsGroup := .list _ _
  obtain ⟨hall, -, -, -, -, hsessions⟩ := nesting_irrelevant (fun _ => none) hdeep
  obtain ⟨-, -, hfails, -, hempty, -⟩ := nesting_irrelevant (fun _ => none) hhollow
  refine ⟨hdeep, hflat, rfl, ?_, hall, fun base overrides => ?_, hhollow, rfl, ?_⟩
  · decide +kernel
  · exact (hsessions _ hflat rfl base overrides).1 none
  · refine (hfails _).mpr ⟨[Sample.declaring "open"], .tuple [], [.list []], rfl, ?_, hempty⟩
    exact List.forall_mem_singleton.mpr ⟨_, rfl⟩

end Source

end RuleEngine
