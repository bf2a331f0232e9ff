import Mathlib.Data.List.Nodup
import RuleEngine.Source.RuleSet

/-!
# What classes declare

A class is regular if none of its members replaces what every rule set has, and all rules it
declares can be built (`ClassDeclaration.Regular`). The class made of it then has each rule under
the name it is declared by, in the order of the names (`HostClass.Regular`).
-/

namespace RuleEngine

variable {a : String} {c : HostClass} {d : ClassDeclaration}

/-! ## Declarations -/

namespace ClassDeclaration

/-- What every rule set has without declaring it: the attributes of all objects, and the function
that collects the rules. -/
def inheritedNames : List String :=
  ["rules", "__class__", "__delattr__", "__dict__", "__dir__", "__doc__", "__eq__", "__format__",
    "__ge__", "__getattribute__", "__getstate__", "__gt__", "__hash__", "__init__",
    "__init_subclass__", "__le__", "__lt__", "__module__", "__ne__", "__new__", "__reduce__",
    "__reduce_ex__", "__repr__", "__setattr__", "__sizeof__", "__str__", "__subclasshook__",
    "__weakref__"]

/-- The members have names of their own, none of which every rule set has, and the rules declared
can all be built. -/
structure Regular (d : ClassDeclaration) : Prop where
  distinct : (d.members.map (·.1)).Nodup
  fresh : ∀ m ∈ d.members, m.1 ∉ inheritedNames
  freshSlots : ∀ slots, d.slots = .ok slots → ∀ s ∈ slots, s ∉ inheritedNames
  builds : ∀ m ∈ d.members, ∀ f decl, m.2 = .function f → f.declaration = some decl →
    ∃ r, decl.build f.action m.1 = .ok r

end ClassDeclaration

theorem lookup_of_nodup {α : Type} {es : List (String × α)} {x : α} (h : (es.map (·.1)).Nodup)
    (hx : (a, x) ∈ es) : es.lookup a = some x := by
  obtain ⟨as, bs, rfl⟩ := List.append_of_mem hx
  refine List.lookup_eq_some_iff.mpr ⟨as, bs, rfl, fun e he => bne_iff_ne.mpr ?_⟩
  rintro rfl
  rw [List.map_append, List.map_cons] at h
  exact (List.nodup_append.mp h).2.2 _ (List.mem_map_of_mem he) _ List.mem_cons_self rfl

/-- Entries of a list under different names come in the order of their names' places. -/
theorem pairwise_idxOf {xs : List String} (h : xs.Nodup) :
    xs.Pairwise fun a b => xs.idxOf a < xs.idxOf b := by
  rw [List.pairwise_iff_getElem]
  intro i j hi hj hij
  rwa [h.idxOf_getElem i hi, h.idxOf_getElem j hj]

namespace HostClass

/-- The class declares a rule under the name, by a function that its instances have. A function
with a name that stands under `__class_getitem__` belongs to the class itself. -/
def DeclaresRule (c : HostClass) (a : String) : Prop :=
  ∃ f, c.definitions.lookup a = some (.member (.function f)) ∧ f.declaration.isSome = true ∧
    (a = "__class_getitem__" → f.name = none)

def position (c : HostClass) (a : String) : Nat := (c.definitions.map (·.1)).idxOf a

/-- The names under which the class declares rules, in order. -/
def ruleNames (c : HostClass) : List String :=
  (c.definitions.filter RuleSet.declaresRule).map (·.1)

/-- The rules of the class stand in the order of their names' places, each is what the class has
under its name, and can be built. What every rule set has, the class does not replace. -/
structure Regular (c : HostClass) : Prop where
  functions : ∀ a f, (a, .member (.function f)) ∈ c.definitions →
    c.definitions.lookup a = some (.member (.function f))
  ordered : c.ruleNames.Pairwise fun a b => c.position a < c.position b
  builds : ∀ a f decl, (a, .member (.function f)) ∈ c.definitions → f.declaration = some decl →
    ∃ r, decl.build f.action a = .ok r
  keeps : ∀ a ∈ ClassDeclaration.inheritedNames, a ≠ "__module__" → a ≠ "__doc__" →
    c.definitions.lookup a = none

end HostClass

namespace ClassDeclaration

variable {slots : List String}

/-- The members of a class, apart from those that only describe it while it is made. -/
def own (d : ClassDeclaration) : List (String × Definition) :=
  (d.members.filter fun m => !transientNames.contains m.1).map fun m => (m.1, .member m.2)

theorem own_sublist (d : ClassDeclaration) :
    ((own d).map (·.1)).Sublist (d.members.map (·.1)) := by
  unfold own
  rw [List.map_map]
  exact List.filter_sublist.map _

/-- What a regular class has besides its members: slots, its module and its description. -/
theorem Regular.definitions_eq (h : d.Regular) (hslots : d.slots = .ok slots) :
    ∃ home : Value, d.definitions slots = own d ++ (slots.map (fun s => (s, Definition.slot)) ++
      [("__module__", .member (.plain home)), ("__doc__", .member (.plain .none))]) := by
  have hnone : (own d ++ slots.map fun s => (s, Definition.slot)).lookup "__eq__" = none := by
    refine List.lookup_eq_none_iff.mpr fun e he => bne_iff_ne.mpr ?_
    intro hname
    have hinherited : e.1 ∈ inheritedNames := hname ▸ by decide
    rcases List.mem_append.mp he with he | he
    · obtain ⟨m, hm, rfl⟩ := List.mem_map.mp he
      exact h.fresh m (List.mem_filter.mp hm).1 hinherited
    · obtain ⟨s, hs, rfl⟩ := List.mem_map.mp he
      exact h.freshSlots slots hslots s hs hinherited
  have hall : d.definitions slots = own d ++ slots.map (fun s => (s, .slot)) ++
      standard d.home (own d ++ slots.map fun s => (s, .slot)) := rfl
  refine ⟨.text d.home, ?_⟩
  rw [hall, standard, hnone, List.append_assoc]
  rfl

theorem ne_slot_of_mem {e : String × Definition} (h : e ∈ d.definitions []) : e.2 ≠ .slot := by
  have hall : d.definitions [] = own d ++ standard d.home (own d) := by
    simp [definitions, own]
  rw [hall] at h
  rcases List.mem_append.mp h with h | h
  · obtain ⟨m, -, rfl⟩ := List.mem_map.mp h
    exact nofun
  · have hstandard : ∀ e ∈ standard d.home (own d), e.2 ≠ .slot := by
      unfold standard
      split <;> simp
    exact hstandard e h

theorem Regular.toClass (h : d.Regular) (hslots : d.slots = .ok slots)
    (hc : c.definitions = d.definitions slots) : c.Regular := by
  obtain ⟨home, hdefinitions⟩ := h.definitions_eq hslots
  rw [hdefinitions] at hc
  have hnodup : ((own d).map (·.1)).Nodup := h.distinct.sublist d.own_sublist
  have hmember {a : String} {m : ClassMember} (hm : (a, .member m) ∈ own d) :
      (a, m) ∈ d.members := by
    obtain ⟨e, he, heq⟩ := List.mem_map.mp hm
    cases heq
    exact (List.mem_filter.mp he).1
  -- no function stands behind the members
  have hown {a : String} {f : HostFunction} (hf : (a, .member (.function f)) ∈ c.definitions) :
      (a, .member (.function f)) ∈ own d := by
    rw [hc] at hf
    simpa using hf
  refine ⟨fun a f hf => ?_, ?_, fun a f decl hf => ?_, fun a ha hmodule hdoc => ?_⟩
  · rw [hc, List.lookup_append, lookup_of_nodup hnodup (hown hf), Option.some_or]
  · have hnames : c.ruleNames = ((own d).filter RuleSet.declaresRule).map (·.1) := by
      simp [HostClass.ruleNames, hc, RuleSet.declaresRule]
    have hordered := (pairwise_idxOf hnodup).sublist
      ((List.filter_sublist (p := RuleSet.declaresRule) (l := own d)).map _)
    rw [hnames]
    refine hordered.imp_of_mem fun ha hb hab => ?_
    have hposition {a : String} (ha : a ∈ ((own d).filter RuleSet.declaresRule).map (·.1)) :
        c.position a = ((own d).map (·.1)).idxOf a := by
      have hmem : a ∈ (own d).map (·.1) := (List.filter_sublist.map _).subset ha
      rw [HostClass.position, hc, List.map_append, List.idxOf_append_of_mem hmem]
    rwa [hposition ha, hposition hb]
  · exact h.builds _ (hmember (hown hf)) f decl rfl
  · rw [hc]
    refine List.lookup_eq_none_iff.mpr fun e he => bne_iff_ne.mpr ?_
    rintro rfl
    simp only [List.mem_append, List.mem_map, List.mem_cons, List.not_mem_nil, or_false] at he
    rcases he with he | ⟨s, hs, rfl⟩ | rfl | rfl
    · obtain ⟨m, hm, rfl⟩ := List.mem_map.mp he
      exact h.fresh m (List.mem_filter.mp hm).1 ha
    · exact h.freshSlots slots hslots s hs ha
    · exact hmodule rfl
    · exact hdoc rfl

end ClassDeclaration

namespace HostClass

theorem mem_of_lookup {x : Definition} (h : c.definitions.lookup a = some x) :
    (a, x) ∈ c.definitions := by
  obtain ⟨as, bs, hsplit, -⟩ := List.lookup_eq_some_iff.mp h
  rw [hsplit]
  exact List.mem_append_right _ List.mem_cons_self

theorem Regular.mem_ruleNames (h : c.Regular) : a ∈ c.ruleNames ↔ c.DeclaresRule a := by
  unfold ruleNames
  rw [List.mem_map]
  constructor
  · rintro ⟨⟨a, x⟩, hx, rfl⟩
    obtain ⟨hmem, hdeclares⟩ := List.mem_filter.mp hx
    match x, hdeclares, hmem with
    | .member (.function f), hdeclares, hmem =>
      obtain ⟨hrule, howns⟩ := (Bool.and_eq_true _ _).mp hdeclares
      refine ⟨f, h.functions a f hmem, hrule, fun ha => ?_⟩
      simpa [show a = "__class_getitem__" from ha, RuleSet.ownNames] using howns
  · rintro ⟨f, hf, hrule, hname⟩
    refine ⟨(a, .member (.function f)), List.mem_filter.mpr ⟨mem_of_lookup hf, ?_⟩, rfl⟩
    have hhook : a ≠ extensionHook := by
      rintro rfl
      have hnone := h.keeps extensionHook (by decide) (by decide) (by decide)
      cases hnone.symm.trans hf
    by_cases ha : a = "__class_getitem__"
    · simp [RuleSet.declaresRule, hrule, hname ha]
    · simp [RuleSet.declaresRule, RuleSet.ownNames, hrule, hhook, ha]

end HostClass

end RuleEngine
