import RuleEngine.Proofs.Matching
import RuleEngine.Traced

/-!
# What a traced computation answers

The notices of a traced computation play no part in its value. `bind_value_eq_ok` takes a sequence
apart at its first computation, and `mapM_value_eq_ok` a computation over a list item by item; with
these two every operation of a session is inverted into the answers of its parts. `bind_eq_ok` does
the same for computations without notices.

`Traced.Agree` compares two computations: they fail alike, or both answer and the answers are
related. `Traced.AgreeUnless` leaves the first of them an excuse to fail on its own. Both go through
sequences (`AgreeUnless.bind`), so two runs of one program are compared part by part.
-/

namespace RuleEngine

theorem bind_eq_ok {ε α β : Type} {x : Except ε α} {f : α → Except ε β} {b : β} :
    (x >>= f) = .ok b ↔ ∃ a, x = .ok a ∧ f a = .ok b := by
  cases x <;> simp [bind, Except.bind]

theorem bind_eq_error {ε α β : Type} {x : Except ε α} {f : α → Except ε β} {e : ε} :
    (x >>= f) = .error e ↔ x = .error e ∨ ∃ a, x = .ok a ∧ f a = .error e := by
  cases x <;> simp [bind, Except.bind]

theorem pure_eq_ok {ε α : Type} {a b : α} : (pure a : Except ε α) = .ok b ↔ a = b := by
  simp [pure, Except.pure]

theorem mapError_eq_ok {ε ε' α : Type} {x : Except ε α} {f : ε → ε'} {a : α} :
    x.mapError f = .ok a ↔ x = .ok a := by
  cases x <;> simp [Except.mapError]

theorem map_eq_ok {ε α β : Type} {x : Except ε α} {f : α → β} {b : β} :
    x.map f = .ok b ↔ ∃ a, x = .ok a ∧ f a = b := by
  cases x <;> simp [Except.map]

theorem map_eq_error {ε α β : Type} {x : Except ε α} {f : α → β} {e : ε} :
    x.map f = .error e ↔ x = .error e := by
  cases x <;> simp [Except.map]

theorem lift_eq_ok {α : Type} {x : Except Fault α} {a : α} :
    Fault.lift x = .ok a ↔ x = .ok a := by
  cases x <;> simp [Fault.lift]

theorem lift_eq_error {α : Type} {x : Except Fault α} {e : Error} :
    Fault.lift x = .error e ↔ ∃ f, x = .error f ∧ e = .fault f := by
  cases x <;> simp [Fault.lift, eq_comm]

theorem forM_eq_ok {ε α : Type} {f : α → Except ε Unit} {xs : List α} {u : Unit} :
    xs.forM f = .ok u ↔ ∀ x ∈ xs, f x = .ok () := by
  induction xs with
  | nil => simp [pure, Except.pure]
  | cons x xs ih =>
    change (f x >>= fun _ => xs.forM f) = .ok () ↔ _
    rw [bind_eq_ok, List.forall_mem_cons, ih]
    constructor
    · intro ⟨_, hx, hxs⟩
      exact ⟨hx, hxs⟩
    · intro ⟨hx, hxs⟩
      exact ⟨(), hx, hxs⟩

theorem mapM_eq_ok {ε α β : Type} {f : α → Except ε β} {xs : List α} {ys : List β} :
    xs.mapM f = .ok ys ↔ List.Forall₂ (fun x y => f x = .ok y) xs ys := by
  induction xs generalizing ys with
  | nil => simp [pure, Except.pure, eq_comm]
  | cons x xs ih =>
    simp only [List.mapM_cons, bind_eq_ok, pure_eq_ok, ih, List.forall₂_cons_left_iff]
    constructor
    · intro ⟨y, hy, zs, hzs, h⟩
      exact ⟨y, zs, hy, hzs, h.symm⟩
    · intro ⟨y, zs, hy, hzs, h⟩
      exact ⟨y, hy, zs, hzs, h.symm⟩

theorem mapM_eq_error {ε α β : Type} {f : α → Except ε β} {xs : List α} {e : ε} :
    xs.mapM f = .error e ↔ ∃ before x after, xs = before ++ x :: after ∧
      (∀ y ∈ before, ∃ z, f y = .ok z) ∧ f x = .error e := by
  induction xs with
  | nil => simp [pure, Except.pure]
  | cons x xs ih =>
    simp only [List.mapM_cons, bind_eq_error, ih]
    constructor
    · rintro (hx | ⟨z, hz, ⟨before, y, after, rfl, hbefore, hy⟩ | ⟨_, -, ⟨⟩⟩⟩)
      · exact ⟨[], x, xs, rfl, nofun, hx⟩
      · exact ⟨x :: before, y, after, rfl, List.forall_mem_cons.mpr ⟨⟨z, hz⟩, hbefore⟩, hy⟩
    · rintro ⟨before, y, after, hsplit, hbefore, hy⟩
      cases before with
      | nil =>
        obtain ⟨rfl, -⟩ := List.cons.inj hsplit
        exact .inl hy
      | cons _ before =>
        obtain ⟨rfl, rfl⟩ := List.cons.inj hsplit
        obtain ⟨⟨z, hz⟩, hrest⟩ := List.forall_mem_cons.mp hbefore
        exact .inr ⟨z, hz, .inl ⟨before, y, after, rfl, hrest, hy⟩⟩

theorem toOption_eq_some {ε α : Type} {x : Except ε α} {a : α} :
    x.toOption = some a ↔ x = .ok a := by
  cases x <;> simp [Except.toOption]

end RuleEngine

namespace RuleEngine.Traced

variable {α β γ : Type}

@[simp] theorem pure_value (a : α) : (pure a : Traced α).value = .ok a := rfl

@[simp] theorem ofExcept_value (x : Except Error α) : (ofExcept x).value = x := rfl

theorem bind_value {x : Traced α} {f : α → Traced β} :
    (x >>= f).value = x.value >>= fun a => (f a).value := by
  change (andThen x f).value = _
  unfold andThen
  cases x.value <;> rfl

/-- A sequence answers exactly if both of its parts do. -/
theorem bind_value_eq_ok {x : Traced α} {f : α → Traced β} {b : β} :
    (x >>= f).value = .ok b ↔ ∃ a, x.value = .ok a ∧ (f a).value = .ok b := by
  change (andThen x f).value = .ok b ↔ _
  unfold andThen
  cases x.value with
  | error e => simp
  | ok a => simp

theorem give_bind_value {ns : List Notice} {f : Unit → Traced β} :
    (give ns >>= f).value = (f ()).value := by
  change (andThen (give ns) f).value = _
  simp [andThen, give]

theorem andThen_ok (x : Traced α) : andThen x (fun a => ok a) = x := by
  obtain ⟨ns, v⟩ := x
  cases v <;> simp [andThen, ok]

theorem ok_andThen (a : α) (f : α → Traced β) : andThen (ok a) f = f a := by
  simp [andThen, ok]

theorem andThen_assoc (x : Traced α) (f : α → Traced β) (g : β → Traced γ) :
    andThen (andThen x f) g = andThen x fun a => andThen (f a) g := by
  obtain ⟨ns, v⟩ := x
  cases v with
  | error e => simp [andThen]
  | ok a =>
    simp only [andThen]
    cases (f a).value <;> simp

instance : LawfulMonad Traced := LawfulMonad.mk' Traced andThen_ok ok_andThen andThen_assoc

/-- A computation over a list answers exactly if it answers on every item. -/
theorem mapM_value_eq_ok {f : α → Traced β} {xs : List α} {ys : List β} :
    (xs.mapM f).value = .ok ys ↔ List.Forall₂ (fun x y => (f x).value = .ok y) xs ys := by
  induction xs generalizing ys with
  | nil => simp [eq_comm]
  | cons x xs ih =>
    simp only [List.mapM_cons, bind_value_eq_ok, pure_value, Except.ok.injEq, ih,
      List.forall₂_cons_left_iff]
    constructor
    · rintro ⟨y, hy, zs, hzs, rfl⟩
      exact ⟨y, zs, hy, hzs, rfl⟩
    · rintro ⟨y, zs, hy, hzs, rfl⟩
      exact ⟨y, hy, zs, hzs, rfl⟩

theorem bind_value_eq_error {x : Traced α} {f : α → Traced β} {e : Error} :
    (x >>= f).value = .error e ↔
      x.value = .error e ∨ ∃ a, x.value = .ok a ∧ (f a).value = .error e := by
  change (andThen x f).value = .error e ↔ _
  unfold andThen
  cases x.value with
  | error e => simp
  | ok a => simp

/-- A computation over a list fails as it fails on some item. -/
theorem mapM_value_eq_error {f : α → Traced β} {xs : List α} {e : Error}
    (h : (xs.mapM f).value = .error e) : ∃ x ∈ xs, (f x).value = .error e := by
  induction xs with
  | nil => cases h
  | cons x xs ih =>
    simp only [List.mapM_cons, bind_value_eq_error, pure_value] at h
    rcases h with hx | ⟨_, -, hxs | ⟨_, -, ⟨⟩⟩⟩
    · exact ⟨x, List.mem_cons_self, hx⟩
    · obtain ⟨y, hy, he⟩ := ih hxs
      exact ⟨y, List.mem_cons_of_mem _ hy, he⟩

/-! ## Two computations side by side -/

/-- The two computations fail alike, or both answer and the answers are related; or else the first
one fails with an excuse. Their notices may differ. -/
inductive AgreeUnless (P : Error → Prop) (R : α → β → Prop) (x : Traced α) (y : Traced β) :
    Prop where
  | ok {a : α} {b : β} (left : x.value = .ok a) (right : y.value = .ok b) (rel : R a b)
  | error {e : Error} (left : x.value = .error e) (right : y.value = .error e)
  | excused {e : Error} (left : x.value = .error e) (excuse : P e)

/-- The two computations fail alike, or both answer and the answers are related. -/
abbrev Agree (R : α → β → Prop) (x : Traced α) (y : Traced β) : Prop :=
  AgreeUnless (fun _ => False) R x y

namespace AgreeUnless

variable {α' β' : Type} {P : Error → Prop} {R : α → α' → Prop} {Q : β → β' → Prop}

theorem refl (x : Traced α) : AgreeUnless P Eq x x := by
  cases h : x.value with
  | ok a => exact .ok h h rfl
  | error e => exact .error h h

theorem pure {a : α} {a' : α'} (h : R a a') : AgreeUnless P R (pure a) (pure a') := .ok rfl rfl h

/-- What the first one answers has a counterpart that the second answers. -/
theorem exists_of_ok {x : Traced α} {y : Traced α'} {a : α} (h : AgreeUnless P R x y)
    (hx : x.value = .ok a) : ∃ b, y.value = .ok b ∧ R a b := by
  cases h with
  | error hleft _ | excused hleft _ =>
    rw [hx] at hleft
    cases hleft
  | ok hleft hright hrel =>
    rw [hx] at hleft
    obtain rfl := Except.ok.inj hleft
    exact ⟨_, hright, hrel⟩

/-- Where the second one answers, the first one answers as well or has an excuse. -/
theorem exists_or_excused {x : Traced α} {y : Traced α'} {b : α'} (h : AgreeUnless P R x y)
    (hy : y.value = .ok b) : (∃ a, x.value = .ok a ∧ R a b) ∨ ∃ e, x.value = .error e ∧ P e := by
  cases h with
  | error _ hright =>
    rw [hy] at hright
    cases hright
  | excused hleft hexcuse => exact .inr ⟨_, hleft, hexcuse⟩
  | ok hleft hright hrel =>
    rw [hy] at hright
    obtain rfl := Except.ok.inj hright
    exact .inl ⟨_, hleft, hrel⟩

/-- Sequences agree if their first parts do, and their second parts do on related answers. -/
theorem bind {x : Traced α} {x' : Traced α'} {f : α → Traced β} {f' : α' → Traced β'}
    (h : AgreeUnless P R x x') (hf : ∀ a a', R a a' → AgreeUnless P Q (f a) (f' a')) :
    AgreeUnless P Q (x >>= f) (x' >>= f') := by
  cases h with
  | error hx hx' =>
    exact .error (bind_value_eq_error.mpr (.inl hx)) (bind_value_eq_error.mpr (.inl hx'))
  | excused hx hexcuse => exact .excused (bind_value_eq_error.mpr (.inl hx)) hexcuse
  | @ok a a' hx hx' hr =>
    cases hf a a' hr with
    | ok hy hy' hq =>
      exact .ok (bind_value_eq_ok.mpr ⟨a, hx, hy⟩) (bind_value_eq_ok.mpr ⟨a', hx', hy'⟩) hq
    | error hy hy' =>
      have hleft := bind_value_eq_error.mpr (.inr ⟨a, hx, hy⟩)
      have hright := bind_value_eq_error.mpr (.inr ⟨a', hx', hy'⟩)
      exact .error hleft hright
    | excused hy hexcuse => exact .excused (bind_value_eq_error.mpr (.inr ⟨a, hx, hy⟩)) hexcuse

/-- Sequences with the same first part agree if their second parts do. -/
theorem bind_left {x : Traced α} {f : α → Traced β} {f' : α → Traced β'}
    (hf : ∀ a, AgreeUnless P Q (f a) (f' a)) : AgreeUnless P Q (x >>= f) (x >>= f') := by
  refine (refl x).bind ?_
  intro a a' ha
  rw [← ha]
  exact hf a

end AgreeUnless

end RuleEngine.Traced
