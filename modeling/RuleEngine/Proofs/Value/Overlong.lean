import Mathlib.Data.List.Forall2
import RuleEngine.Value.Overlong

/-!
# Values with numbers too long to write

A value is shown with a number that is too long to write exactly if one of its parts is. Neither its
plain text, nor its canonical text, nor its stand-in takes writing more than its shown form, so what
can be shown has all three.

* `induct`: induction on a value by its parts, with one case for all values without parts and one
  for both sorts of sets.
* `isOverlong_of_text`, `isOverlong_of_content`, `isOverlong_of_isUnfreezable`: what keeps the value
  from being written otherwise keeps it from being shown.
-/

namespace RuleEngine

theorem checkLength_eq_ok {long : Bool} {u : Unit} : checkLength long = .ok u ↔ long = false := by
  cases long <;> simp [checkLength]

theorem checkLength_eq_error {long : Bool} {f : Fault} :
    checkLength long = .error f ↔ long = true ∧ f = .unwritableInteger := by
  cases long <;> simp [checkLength, eq_comm]

namespace Value

variable {v : Value} {xs : List Value} {es : List (Value × Value)} {fs : List (String × Value)}

theorem induct {P : Value → Prop} (atom : ∀ v a, v.atom? = some a → P v)
    (list : ∀ xs, (∀ x ∈ xs, P x) → P (.list xs))
    (tuple : ∀ xs, (∀ x ∈ xs, P x) → P (.tuple xs))
    (members : ∀ v xs, v.members? = some xs → (∀ x ∈ xs, P x) → P v)
    (map : ∀ es, (∀ e ∈ es, P e.1 ∧ P e.2) → P (.map es))
    (object : ∀ c fs, (∀ f ∈ fs, P f.2) → P (.object c fs))
    (key : ∀ k r b, P k → P r → P b → P (.key k r b))
    (method : ∀ o n, P o → P (.method o n)) (v : Value) : P v := by
  -- the constructors in order, then the four sorts of lists and pairs that values are nested in
  refine @Value.rec P (fun xs => ∀ x ∈ xs, P x) (fun es => ∀ e ∈ es, P e.1 ∧ P e.2)
    (fun fs => ∀ f ∈ fs, P f.2) (fun e => P e.1 ∧ P e.2) (fun f => P f.2)
    (atom _ _ rfl) (fun _ => atom _ _ rfl) (fun _ => atom _ _ rfl) (fun _ => atom _ _ rfl)
    (fun _ => atom _ _ rfl) (fun _ => atom _ _ rfl) (fun _ => atom _ _ rfl) ?_
    list tuple (fun _ => members _ _ rfl) (fun _ => members _ _ rfl) map object key
    (fun _ => atom _ _ rfl) (atom _ _ rfl) method (fun _ => atom _ _ rfl) ?_ ?_ ?_ ?_ ?_ ?_ ?_ ?_ v
  · rintro ⟨e, n, p⟩
    cases p <;> exact atom _ _ rfl
  all_goals simp_all

theorem isOverlongInteger_iff {n : Int} : isOverlongInteger n = true ↔ writtenBound ≤ n.natAbs := by
  unfold isOverlongInteger
  exact decide_eq_true_iff

theorem isOverlongInteger_writtenBound : isOverlongInteger writtenBound = true :=
  isOverlongInteger_iff.mpr (Nat.le_of_eq (Int.natAbs_natCast _).symm)

/-! ## Parts that are too long -/

theorem isOverlongAny_eq : isOverlongAny xs = xs.any isOverlong := by
  induction xs with
  | nil => rfl
  | cons x xs ih => rw [isOverlongAny, ih, List.any_cons]

theorem isOverlongEntry_eq :
    isOverlongEntry es = es.any fun e => e.1.isOverlong || e.2.isOverlong := by
  induction es with
  | nil => rfl
  | cons e es ih => rw [isOverlongEntry, ih, List.any_cons]

theorem isOverlongField_eq : isOverlongField fs = fs.any fun f => f.2.isOverlong := by
  induction fs with
  | nil => rfl
  | cons f fs ih => rw [isOverlongField, ih, List.any_cons]

theorem isOverlongContentAny_eq : isOverlongContentAny xs = xs.any isOverlongContent := by
  induction xs with
  | nil => rfl
  | cons x xs ih => rw [isOverlongContentAny, ih, List.any_cons]

theorem isOverlongContentEntry_eq : isOverlongContentEntry es =
    es.any fun e => e.1.isOverlongContent || e.2.isOverlongContent := by
  induction es with
  | nil => rfl
  | cons e es ih => rw [isOverlongContentEntry, ih, List.any_cons]

theorem isOverlongContentField_eq :
    isOverlongContentField fs = fs.any fun f => f.2.isOverlongContent := by
  induction fs with
  | nil => rfl
  | cons f fs ih => rw [isOverlongContentField, ih, List.any_cons]

theorem isUnfreezableAny_eq : isUnfreezableAny xs = xs.any isUnfreezable := by
  induction xs with
  | nil => rfl
  | cons x xs ih => rw [isUnfreezableAny, ih, List.any_cons]

theorem isUnfreezableField_eq : isUnfreezableField fs = fs.any fun f => f.2.isUnfreezable := by
  induction fs with
  | nil => rfl
  | cons f fs ih => rw [isUnfreezableField, ih, List.any_cons]

theorem isOverlongAny_iff : isOverlongAny xs = true ↔ ∃ x ∈ xs, x.isOverlong = true := by
  rw [isOverlongAny_eq, List.any_eq_true]

theorem isOverlongEntry_iff : isOverlongEntry es = true ↔
    ∃ e ∈ es, e.1.isOverlong = true ∨ e.2.isOverlong = true := by
  simp only [isOverlongEntry_eq, List.any_eq_true, Bool.or_eq_true]

theorem isOverlongField_iff : isOverlongField fs = true ↔ ∃ f ∈ fs, f.2.isOverlong = true := by
  rw [isOverlongField_eq, List.any_eq_true]

theorem isOverlongEntry_eq_false : isOverlongEntry es = false ↔
    ∀ e ∈ es, e.1.isOverlong = false ∧ e.2.isOverlong = false := by
  simp only [isOverlongEntry_eq, List.any_eq_false, Bool.or_eq_true, not_or, Bool.not_eq_true]

theorem isUnfreezableAny_iff : isUnfreezableAny xs = true ↔ ∃ x ∈ xs, x.isUnfreezable = true := by
  rw [isUnfreezableAny_eq, List.any_eq_true]

theorem isUnfreezableField_iff : isUnfreezableField fs = true ↔
    ∃ f ∈ fs, f.2.isUnfreezable = true := by
  rw [isUnfreezableField_eq, List.any_eq_true]

/-! ## Plain and canonical texts -/

theorem isOverlong_of_number {p : Payload} (h : p.isOverlongNumber = true) :
    p.isOverlong = true := by
  cases p <;> simp_all [Payload.isOverlongNumber, Payload.isOverlong]

theorem isOverlong_of_text : v.isOverlongText = true → v.isOverlong = true := by
  induction v using induct with
  | atom v a ha =>
    cases v with
    | member m => exact isOverlong_of_number
    | int n => exact id
    | _ => intro h; first | cases h | cases ha
  | members v xs hm =>
    cases v with
    | set | frozenSet => exact id
    | _ => cases hm
  | key k r b ihk ihr =>
    simp only [isOverlongText, isOverlong, Bool.or_eq_true]
    exact fun h => .inl (h.imp ihk ihr)
  | list | tuple | map | object | method => exact id

theorem isOverlong_of_content : v.isOverlongContent = true → v.isOverlong = true := by
  induction v using induct with
  | atom v a ha =>
    cases v with
    | member m => exact isOverlong_of_number
    | int n => exact id
    | _ => intro h; first | cases h | cases ha
  | list xs ih | tuple xs ih =>
    intro h
    rw [isOverlongContent, isOverlongContentAny_eq, List.any_eq_true] at h
    obtain ⟨x, hx, h⟩ := h
    exact isOverlongAny_iff.mpr ⟨x, hx, ih x hx h⟩
  | members v xs hm ih =>
    intro h
    cases v with
    | set ys | frozenSet ys =>
      cases hm
      rw [isOverlongContent, isOverlongContentAny_eq, List.any_eq_true] at h
      obtain ⟨x, hx, h⟩ := h
      exact isOverlongAny_iff.mpr ⟨x, hx, ih x hx h⟩
    | _ => cases hm
  | map es ih =>
    intro h
    rw [isOverlongContent, isOverlongContentEntry_eq, List.any_eq_true] at h
    obtain ⟨e, he, h⟩ := h
    exact isOverlongEntry_iff.mpr ⟨e, he, ((Bool.or_eq_true _ _).mp h).imp (ih e he).1 (ih e he).2⟩
  | object c fs ih =>
    intro h
    rw [isOverlongContent] at h
    cases hs : c.sort with
    | record frozen =>
      simp only [hs, isOverlongContentField_eq, List.any_eq_true] at h
      obtain ⟨f, hf, h⟩ := h
      exact isOverlongField_iff.mpr ⟨f, hf, ih f hf h⟩
    | labelled hashable =>
      simp only [hs] at h
      exact h
  | key k r b ihk ihr ihb =>
    simp only [isOverlongContent, isOverlong, Bool.or_eq_true]
    exact fun h => h.imp (Or.imp ihk ihr) ihb
  | method o n => exact id

/-! ## Stand-ins -/

/-- What keeps a stand-in from being found keeps the value from being written. -/
theorem isOverlong_of_isUnfreezable : v.isUnfreezable = true → v.isOverlong = true := by
  induction v using induct with
  | atom v a h =>
    intro hu
    cases v <;> first | cases hu | cases h
  | list xs ih | tuple xs ih =>
    intro hu
    obtain ⟨x, hx, hu⟩ := isUnfreezableAny_iff.mp hu
    exact isOverlongAny_iff.mpr ⟨x, hx, ih x hx hu⟩
  | members v xs hm ih =>
    intro hu
    cases v <;> first | cases hu | cases hm
  | map es ih => exact id
  | object c fs ih =>
    intro hu
    rw [isUnfreezable] at hu
    cases hs : c.sort with
    | record frozen =>
      simp only [hs, isUnfreezableField_iff] at hu
      obtain ⟨f, hf, hu⟩ := hu
      exact isOverlongField_iff.mpr ⟨f, hf, ih f hf hu⟩
    | labelled hashable =>
      simp only [hs, Bool.and_eq_true] at hu
      exact hu.2
  | key k r b ihk ihr ihb =>
    simp only [isUnfreezable, isOverlong, Bool.or_eq_true]
    rintro ((hu | hu) | hu)
    · exact .inl (.inl (ihk hu))
    · exact .inl (.inr (ihr hu))
    · exact .inr (ihb hu)
  | method o n ih => exact nofun

/-! ## What can be shown -/

theorem checkShown_eq_ok {u : Unit} : v.checkShown = .ok u ↔ v.isOverlong = false :=
  checkLength_eq_ok

theorem checkText_eq_ok {u : Unit} : v.checkText = .ok u ↔ v.isOverlongText = false :=
  checkLength_eq_ok

theorem checkContent_eq_ok {u : Unit} : v.checkContent = .ok u ↔ v.isOverlongContent = false :=
  checkLength_eq_ok

theorem checkFreezable_eq_ok {u : Unit} : v.checkFreezable = .ok u ↔ v.isUnfreezable = false :=
  checkLength_eq_ok

section

variable (h : v.isOverlong = false)

include h

theorem checkText_of_shown : v.checkText = .ok () :=
  checkText_eq_ok.mpr (Bool.eq_false_iff.mpr (mt isOverlong_of_text (Bool.eq_false_iff.mp h)))

theorem checkContent_of_shown : v.checkContent = .ok () :=
  checkContent_eq_ok.mpr (Bool.eq_false_iff.mpr (mt isOverlong_of_content (Bool.eq_false_iff.mp h)))

/-- The stand-in of a value that can be shown can be found. -/
theorem checkFreezable_of_shown : v.checkFreezable = .ok () :=
  checkFreezable_eq_ok.mpr
    (Bool.eq_false_iff.mpr (mt isOverlong_of_isUnfreezable (Bool.eq_false_iff.mp h)))

end

end RuleEngine.Value
