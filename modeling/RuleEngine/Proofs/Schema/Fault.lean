import RuleEngine.Proofs.Schema.Record

/-!
# When reading declared data ends in a fault

Flaws are collected, but a fault ends the reading. `HaltsIff F P` says when that happens: exactly
if `P` holds, and then the fault is one of `F`. A whole halts exactly if one of its parts does, so
there is one lemma for each way of putting parts together, and the condition of a document is made
of the conditions of what it is read by. Texts, numbers, flags and choices never halt.
-/

namespace RuleEngine

namespace Checked

variable {α β γ : Type} {F : Fault → Prop} {P Q : Prop} {c : Checked α} {d : Checked β}

/-- The reading ends in a fault exactly if `P` holds, and the fault is then one of `F`. -/
def HaltsIff (F : Fault → Prop) (P : Prop) : Checked α → Prop
  | .fault f => P ∧ F f
  | _ => ¬ P

theorem HaltsIff.congr (h : HaltsIff F P c) (hpq : P ↔ Q) : HaltsIff F Q c := by
  rwa [← hpq]

theorem HaltsIff.ok (a : α) : HaltsIff F False (.ok a) := not_false

theorem HaltsIff.flaw (f : Flaw) : HaltsIff F False (.flaw f : Checked α) := not_false

theorem HaltsIff.map (h : HaltsIff F P c) (f : α → β) : HaltsIff F P (f <$> c) := by
  change HaltsIff F P (Checked.map f c)
  cases c <;> exact h

theorem HaltsIff.both (hc : HaltsIff F P c) (hd : HaltsIff F Q d) (f : α → β → γ) :
    HaltsIff F (P ∨ Q) (Checked.both f c d) := by
  cases c with
  | fault e => exact ⟨.inl hc.1, hc.2⟩
  | ok | flawed =>
    cases d with
    | fault e => exact ⟨.inr hd.1, hd.2⟩
    | ok | flawed => exact not_or.mpr ⟨hc, hd⟩

theorem HaltsIff.seq {f : Checked (α → β)} (hf : HaltsIff F P f) (hc : HaltsIff F Q c) :
    HaltsIff F (P ∨ Q) (f <*> c) := hf.both hc _

theorem HaltsIff.under (h : HaltsIff F P c) (s : Step) : HaltsIff F P (c.under s) := by
  cases c <;> exact h

theorem HaltsIff.withFlaws (h : HaltsIff F P c) (ds : List Detail) :
    HaltsIff F P (c.withFlaws ds) := by
  unfold Checked.withFlaws
  split
  · exact h
  · refine (h.both (d := .flawed ds) (Q := False) not_false _).congr ?_
    simp

theorem HaltsIff.andThen {f : α → Checked β} {R : α → Prop} (hc : HaltsIff F P c)
    (hf : ∀ a, HaltsIff F (R a) (f a)) : HaltsIff F (P ∨ ∃ a, c = .ok a ∧ R a) (c.andThen f) := by
  cases c with
  | ok a =>
    refine (hf a).congr ⟨fun hr => .inr ⟨a, rfl, hr⟩, ?_⟩
    rintro (hp | ⟨_, ⟨⟩, hr⟩)
    · exact absurd hp hc
    · exact hr
  | flawed =>
    rintro (hp | ⟨_, ⟨⟩, -⟩)
    exact hc hp
  | fault => exact ⟨.inl hc.1, hc.2⟩

theorem HaltsIff.check {f : α → Checked β} (hc : HaltsIff F P c)
    (hf : ∀ a, HaltsIff F False (f a)) : HaltsIff F P (c.andThen f) :=
  (hc.andThen hf).congr (by simp)

theorem HaltsIff.eachFrom {read : α → Checked β} {R : α → Prop} (h : ∀ x, HaltsIff F (R x) (read x))
    (i : Nat) (xs : List α) : HaltsIff F (∃ x ∈ xs, R x) (Checked.eachFrom read i xs) := by
  induction xs generalizing i with
  | nil => exact nofun
  | cons x xs ih =>
    refine ((h x).under (.item i)).both (ih (i + 1)) _ |>.congr ?_
    rw [List.exists_mem_cons_iff]

theorem HaltsIff.each {read : α → Checked β} {R : α → Prop} (h : ∀ x, HaltsIff F (R x) (read x))
    (xs : List α) : HaltsIff F (∃ x ∈ xs, R x) (Checked.each read xs) := .eachFrom h 0 xs

end Checked

namespace Schema

open Checked (HaltsIff)

variable {α : Type} {F : Fault → Prop} {P : Prop} {R : Value → Prop} {read : Value → Checked α}

/-! ## Lists and records -/

theorem required_haltsIff (h : ∀ v, HaltsIff F (R v) (read v)) (name : String)
    (es : List (Value × Value)) :
    HaltsIff F (∃ v, Assoc.lookup (.text name) es = some v ∧ R v) (required name read es) := by
  unfold required
  cases Assoc.lookup (.text name) es with
  | none => exact nofun
  | some v => exact ((h v).under _).congr (by simp)

theorem defaulted_haltsIff (h : ∀ v, HaltsIff F (R v) (read v)) (name : String) (default : α)
    (es : List (Value × Value)) :
    HaltsIff F (∃ v, Assoc.lookup (.text name) es = some v ∧ R v)
      (defaulted name read default es) := by
  unfold defaulted
  cases Assoc.lookup (.text name) es with
  | none => exact nofun
  | some v => exact ((h v).under _).congr (by simp)

theorem list_haltsIff (h : ∀ v, HaltsIff F (R v) (read v)) (v : Value) :
    HaltsIff F (∃ xs, items? v = some xs ∧ ∃ x ∈ xs, R x) (list read v) := by
  unfold list
  cases items? v with
  | none => exact nofun
  | some xs => exact (HaltsIff.each h xs).congr (by simp)

theorem fullList_haltsIff (h : ∀ v, HaltsIff F (R v) (read v)) (v : Value) :
    HaltsIff F (∃ xs, items? v = some xs ∧ ∃ x ∈ xs, R x) (fullList read v) := by
  refine (list_haltsIff h v).check fun xs => ?_
  split
  · exact .flaw _
  · exact .ok _

/-- A record of whose entries only one can halt. What is no map has no entries. -/
theorem record_haltsIff {readEntries : List (Value × Value) → Checked α} {key : String}
    (h : ∀ es, HaltsIff F (∃ w, Assoc.lookup (.text key) es = some w ∧ R w) (readEntries es))
    (known : List String) (v : Value) :
    HaltsIff F (∃ w, v.entry? key = some w ∧ R w) (record known readEntries v) := by
  unfold record
  split
  · exact (h _).withFlaws _
  · rename_i hv
    rintro ⟨w, hw, -⟩
    obtain ⟨es, hes, -⟩ := Option.bind_eq_some_iff.mp hw
    cases v with
    | map => exact hv _ rfl
    | _ => cases hes

theorem optional_haltsIff (h : ∀ v, HaltsIff F False (read v)) (v : Value) :
    HaltsIff F False (optional read v) := by
  unfold optional
  split
  · exact .ok _
  · exact (h v).map _

/-! ## Scalars -/

theorem text_haltsIff (v : Value) : HaltsIff F False (text v) := by
  unfold text
  repeat' split
  all_goals exact not_false

theorem fullText_haltsIff (v : Value) : HaltsIff F False (fullText v) := by
  refine (text_haltsIff v).check fun s => ?_
  split <;> exact not_false

theorem numeral_haltsIff (cs : List Char) : HaltsIff F False (Numeral.read cs) := by
  unfold Numeral.read
  dsimp only
  split
  · exact not_false
  · generalize Option.bind _ _ = n
    cases n <;> exact not_false

theorem integerOfDouble_haltsIff (x : Double) : HaltsIff F False (integerOfDouble x) := by
  unfold integerOfDouble
  repeat' split
  all_goals exact not_false

theorem integer_haltsIff (v : Value) : HaltsIff F False (integer v) := by
  unfold integer
  split
  · exact not_false
  · exact numeral_haltsIff _
  · exact not_false
  · exact integerOfDouble_haltsIff _
  · exact not_false
  · exact not_false

theorem natural_haltsIff (v : Value) : HaltsIff F False (natural v) := by
  refine (integer_haltsIff v).check fun n => ?_
  split <;> exact not_false

theorem flagOfInteger_haltsIff (n : Int) : HaltsIff F False (flagOfInteger n) := by
  unfold flagOfInteger
  repeat' split
  all_goals exact not_false

theorem flag_haltsIff (v : Value) : HaltsIff F False (flag v) := by
  unfold flag
  split
  · exact flagOfInteger_haltsIff _
  · unfold flagOfText
    dsimp only
    repeat' split
    all_goals exact not_false
  · exact not_false
  · split
    · exact flagOfInteger_haltsIff _
    · exact not_false
  · exact not_false

theorem choice_haltsIff (alternatives : List (String × α)) (v : Value) :
    HaltsIff F False (choice alternatives v) := by
  unfold choice
  split <;> exact not_false

theorem textMap_haltsIff (v : Value) : HaltsIff F False (textMap v) := by
  unfold textMap
  split
  · rename_i es
    refine HaltsIff.map ?_ _
    induction es with
    | nil => exact not_false
    | cons e es ih =>
      exact (((text_haltsIff _).under _).under _).both ih _ |>.congr (or_self_iff)
  · exact not_false

end Schema

end RuleEngine
