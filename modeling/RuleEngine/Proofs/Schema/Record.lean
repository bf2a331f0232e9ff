import RuleEngine.Proofs.Assoc
import RuleEngine.Proofs.Traced
import RuleEngine.Schema.Record

/-!
# What has been read without a flaw

Reading declared data collects flaws instead of stopping at the first. Where there are none it is a
plain computation: a whole is read exactly if each of its parts is. The lemmas `…_eq_ok` take a
reading apart into those of its parts, down to the values that stood in the data.
-/

namespace RuleEngine

namespace Checked

variable {α β γ : Type} {c : Checked α} {d : Checked β} {f : α → β → γ} {g : α → β}
variable {a : α} {b : β} {x : γ}

theorem both_eq_ok : both f c d = .ok x ↔ ∃ a b, c = .ok a ∧ d = .ok b ∧ f a b = x := by
  cases c <;> cases d <;> simp [both]

theorem map_eq_ok : g <$> c = .ok b ↔ ∃ a, c = .ok a ∧ g a = b := by
  change map g c = .ok b ↔ _
  cases c <;> simp [map]

theorem seq_eq_ok {h : Checked (α → β)} :
    h <*> c = .ok b ↔ ∃ g a, h = .ok g ∧ c = .ok a ∧ g a = b :=
  both_eq_ok

theorem under_eq_ok {s : Step} : c.under s = .ok a ↔ c = .ok a := by
  cases c <;> simp [under]

theorem andThen_eq_ok {h : α → Checked β} : c.andThen h = .ok b ↔ ∃ a, c = .ok a ∧ h a = .ok b := by
  cases c <;> simp [andThen]

theorem withFlaws_eq_ok {ds : List Detail} : c.withFlaws ds = .ok a ↔ c = .ok a ∧ ds = [] := by
  cases ds with
  | nil => simp [withFlaws]
  | cons d ds =>
    refine iff_of_false (fun h => ?_) (by simp)
    obtain ⟨_, _, -, hd, -⟩ := both_eq_ok.mp h
    cases hd

theorem of_withFlaws {ds : List Detail} (h : c.withFlaws ds = .ok a) : c = .ok a :=
  (withFlaws_eq_ok.mp h).1

theorem toExcept_eq_ok {ε : Type} {flaws : List Detail → ε} {failed : Fault → ε} :
    c.toExcept flaws failed = .ok a ↔ c = .ok a := by
  cases c <;> simp [toExcept]

theorem eachFrom_eq_ok {read : α → Checked β} {i : Nat} {xs : List α} {ys : List β} :
    eachFrom read i xs = .ok ys ↔ List.Forall₂ (fun x y => read x = .ok y) xs ys := by
  induction xs generalizing i ys with
  | nil => simp [eachFrom, eq_comm]
  | cons x xs ih =>
    simp only [eachFrom, both_eq_ok, under_eq_ok, ih, List.forall₂_cons_left_iff]
    constructor
    · intro ⟨y, zs, hy, hzs, h⟩
      exact ⟨y, zs, hy, hzs, h.symm⟩
    · intro ⟨y, zs, hy, hzs, h⟩
      exact ⟨y, zs, hy, hzs, h.symm⟩

theorem each_eq_ok {read : α → Checked β} {xs : List α} {ys : List β} :
    each read xs = .ok ys ↔ List.Forall₂ (fun x y => read x = .ok y) xs ys := eachFrom_eq_ok

end Checked

namespace Schema

variable {α : Type} {read : Value → Checked α} {name : String} {es fs : List (Value × Value)}
variable {v : Value} {a : α} {as : List α}

theorem required_eq_ok : required name read es = .ok a ↔
    ∃ v, Assoc.lookup (.text name) es = some v ∧ read v = .ok a := by
  unfold required
  cases Assoc.lookup (.text name) es with
  | none => simp [Checked.under, Checked.flaw]
  | some v => simp [Checked.under_eq_ok]

theorem defaulted_eq_ok {default : α} : defaulted name read default es = .ok a ↔
    (∃ v, Assoc.lookup (.text name) es = some v ∧ read v = .ok a) ∨
      Assoc.lookup (.text name) es = none ∧ a = default := by
  unfold defaulted
  cases Assoc.lookup (.text name) es with
  | none => simp [eq_comm]
  | some v => simp [Checked.under_eq_ok]

theorem of_record {known : List String} {read : List (Value × Value) → Checked α}
    (h : record known read v = .ok a) : ∃ es, v = .map es ∧ read es = .ok a := by
  unfold record at h
  split at h
  · exact ⟨_, rfl, Checked.of_withFlaws h⟩
  · cases h

theorem list_eq_ok : list read v = .ok as ↔
    ∃ xs, items? v = some xs ∧ List.Forall₂ (fun x a => read x = .ok a) xs as := by
  unfold list
  cases items? v with
  | none => simp [Checked.flaw]
  | some xs => simp [Checked.each_eq_ok]

theorem of_fullList (h : fullList read v = .ok as) : list read v = .ok as := by
  obtain ⟨_, hlist, h⟩ := Checked.andThen_eq_ok.mp h
  split at h
  · cases h
  · cases h
    exact hlist

theorem go_values (h : textMap.go es = .ok fs) : ∀ f ∈ fs, ∃ e ∈ es, e.2 = f.2 := by
  induction es generalizing fs with
  | nil =>
    cases h
    exact fun _ hf => nomatch hf
  | cons e es ih =>
    obtain ⟨s, gs, -, hgs, rfl⟩ := Checked.both_eq_ok.mp h
    refine List.forall_mem_cons.mpr ⟨⟨e, List.mem_cons_self, rfl⟩, ?_⟩
    intro f hf
    obtain ⟨e', he', hv⟩ := ih hgs f hf
    exact ⟨e', List.mem_cons_of_mem _ he', hv⟩

/-- A map from texts to any values holds values of the map it is read from. -/
theorem of_textMap (h : textMap v = .ok fs) :
    ∃ es, v = .map es ∧ ∀ f ∈ fs, ∃ e ∈ es, e.2 = f.2 := by
  unfold textMap at h
  split at h
  · rename_i es
    obtain ⟨gs, hgs, rfl⟩ := Checked.map_eq_ok.mp h
    refine ⟨es, rfl, ?_⟩
    have hvalues : ∀ g ∈ gs, True ∧ ∃ e ∈ es, e.2 = g.2 := fun g hg => ⟨trivial, go_values hgs g hg⟩
    exact fun f hf => (Assoc.update_forall (P := fun _ => True) (Q := fun w => ∃ e ∈ es, e.2 = w)
      (List.forall_mem_nil _) hvalues f hf).2
  · cases h

end Schema

end RuleEngine
