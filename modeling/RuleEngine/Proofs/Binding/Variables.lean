import RuleEngine.Proofs.Binding
import RuleEngine.Proofs.Traced

/-!
# Which variables a binding binds

Variables are read by their text, while a binding may hold them under any value that equals that
text, such as a member of an enumeration. `binds_iff` reads off the keys which variables are bound;
what is bound stays bound when a value is put in (`binds_insert`) and when bindings are unified
(`binds_unify`), whatever the values are. Unifying keeps the values of the first binding too
(`read_unify`).
-/

namespace RuleEngine

namespace Value

variable {v w : Value} {s : String}

theorem text_eq_some : v.text? = some s ↔ v.atom? = some (.text s) := by
  cases v with
  | member m =>
    obtain ⟨e, n, p⟩ := m
    cases p <;> simp [text?, atom?]
  | _ => simp [text?, atom?]

theorem eq_text : (v == .text s) = true ↔ v.text? = some s := by
  rw [text_eq_some]
  constructor
  · intro h
    exact atom_of_eqv h rfl
  · intro h
    exact (eqv_of_atom h).mpr ⟨by simp, rfl⟩

theorem text_of_eq (h : (v == w) = true) (hw : w.text? = some s) : v.text? = some s :=
  text_eq_some.mpr (atom_of_eqv h (text_eq_some.mp hw))

end Value

namespace Binding

variable {b c d : Binding} {x : String}

/-- The binding gives the variable a value, so reading it returns. -/
def Binds (b : Binding) (x : String) : Prop := ∃ v, b.read x = .ok v

theorem read_eq_ok {v : Value} : b.read x = .ok v ↔ Assoc.lookup (.text x) b = some v := by
  unfold read
  cases Assoc.lookup (.text x) b <;> simp

theorem read_eq_error {f : Fault} :
    b.read x = .error f ↔ f = .missingKey (.text x) ∧ ¬ b.Binds x := by
  unfold Binds read
  cases Assoc.lookup (.text x) b <;> simp [eq_comm]

/-- What is read stands in the binding, under a key that is the variable's text. -/
theorem mem_of_read {v : Value} (h : b.read x = .ok v) :
    ∃ e ∈ b, e.1.text? = some x ∧ e.2 = v := by
  obtain ⟨e, he, hkey, hv⟩ := Assoc.mem_of_lookup (read_eq_ok.mp h)
  exact ⟨e, he, Value.eq_text.mp hkey, hv⟩

theorem binds_iff : b.Binds x ↔ ∃ e ∈ b, e.1.text? = some x := by
  constructor
  · intro ⟨v, hv⟩
    obtain ⟨e, he, hx, -⟩ := mem_of_read hv
    exact ⟨e, he, hx⟩
  · intro ⟨e, he, hx⟩
    cases hl : Assoc.lookup (.text x) b with
    | none =>
      have hne := Assoc.lookup_eq_none.mp hl e he
      rw [Value.eq_text.mpr hx] at hne
      cases hne
    | some w => exact ⟨w, read_eq_ok.mpr hl⟩

theorem binds_append : Binds (b ++ c) x ↔ b.Binds x ∨ c.Binds x := by
  simp only [binds_iff, List.mem_append, or_and_right, exists_or]

theorem binds_singleton {k v : Value} : Binds [(k, v)] x ↔ k.text? = some x := by
  simp [binds_iff]

/-- Putting a value in binds its variable, and leaves the others as they are. -/
theorem binds_insert {k v : Value} :
    Binds (Assoc.insert k v b) x ↔ b.Binds x ∨ k.text? = some x := by
  cases hl : Assoc.lookup k b with
  | none =>
    rw [Assoc.insert_of_not_contains (by rw [← Assoc.lookup_isSome, hl]; rfl), binds_append,
      binds_singleton]
  | some w =>
    -- the key that is there keeps its place and equals the new one
    obtain ⟨as, k', bs, rfl, hk', has⟩ := Assoc.split_of_lookup hl
    rw [Assoc.insert_split hk' has]
    have hmem : Binds (as ++ (k', v) :: bs) x ↔ Binds (as ++ (k', w) :: bs) x := by
      simp only [binds_iff, List.mem_append, List.mem_cons, or_and_right, exists_or,
        exists_eq_left]
    rw [hmem]
    refine ⟨.inl, ?_⟩
    rintro (h | h)
    · exact h
    · exact binds_iff.mpr ⟨(k', w), by simp, Value.text_of_eq hk' h⟩

theorem binds_unifyOne {e : Value × Value} (h : b.unifyOne e = some d)
    (hx : e.1.text? = some x ∨ b.Binds x) : d.Binds x := by
  unfold unifyOne at h
  cases hl : Assoc.lookup e.1 b with
  | none =>
    simp only [hl, Option.some.injEq] at h
    rw [← h]
    exact binds_append.mpr (hx.symm.imp_right binds_singleton.mpr)
  | some w =>
    obtain ⟨f, hf, hkey, -⟩ := Assoc.mem_of_lookup hl
    have hd : b = d := by
      by_cases hw : (w == e.2) = true
      · simpa [hl, hw] using h
      · simp [hl, hw] at h
    rw [← hd]
    rcases hx with hk | hb
    · exact binds_iff.mpr ⟨f, hf, Value.text_of_eq hkey hk⟩
    · exact hb

theorem binds_foldlM (h : c.foldlM unifyOne b = some d) (hx : b.Binds x ∨ c.Binds x) :
    d.Binds x := by
  induction c generalizing b with
  | nil =>
    cases h
    rcases hx with hb | hc
    · exact hb
    · obtain ⟨e, he, -⟩ := binds_iff.mp hc
      cases he
  | cons e c ih =>
    rw [List.foldlM_cons] at h
    cases hu : b.unifyOne e with
    | none => simp [hu] at h
    | some b' =>
      rw [hu] at h
      refine ih h ?_
      rcases hx with hb | hc
      · exact .inl (binds_unifyOne hu (.inr hb))
      · obtain ⟨f, hf, hfx⟩ := binds_iff.mp hc
        rcases List.mem_cons.mp hf with rfl | hf
        · exact .inl (binds_unifyOne hu (.inl hfx))
        · exact .inr (binds_iff.mpr ⟨f, hf, hfx⟩)

theorem binds_unify (h : b.unify c = some d) (hx : b.Binds x ∨ c.Binds x) : d.Binds x := by
  have hempty : ∀ e : Binding, e.isEmpty = true → ¬ e.Binds x := by
    intro e he hbinds
    obtain ⟨f, hf, -⟩ := binds_iff.mp hbinds
    rw [List.isEmpty_iff.mp he] at hf
    cases hf
  unfold unify at h
  split at h
  · rename_i hb
    cases h
    exact hx.resolve_left (hempty b hb)
  · split at h
    · rename_i hc
      cases h
      exact hx.resolve_right (hempty c hc)
    · exact binds_foldlM h hx

/-! ## What unifying keeps -/

/-- Unifying puts entries of the second binding behind those of the first one. -/
theorem foldlM_unifyOne_append (h : c.foldlM unifyOne b = some d) : ∃ e, d = b ++ e ∧ e ⊆ c := by
  induction c generalizing b with
  | nil =>
    cases h
    exact ⟨[], (List.append_nil _).symm, List.nil_subset _⟩
  | cons f c ih =>
    rw [List.foldlM_cons] at h
    obtain ⟨b', hu, h⟩ := Option.bind_eq_some_iff.mp h
    obtain ⟨e, rfl, he⟩ := ih h
    have hstep : b' = b ∨ b' = b ++ [f] := by
      unfold unifyOne at hu
      split at hu
      · split at hu
        · exact .inl (Option.some.inj hu).symm
        · cases hu
      · exact .inr (Option.some.inj hu).symm
    rcases hstep with rfl | rfl
    · exact ⟨e, rfl, List.subset_cons_of_subset f he⟩
    · exact ⟨f :: e, by simp, List.cons_subset_cons f he⟩

theorem unify_append (h : b.unify c = some d) : ∃ e, d = b ++ e ∧ e ⊆ c := by
  unfold unify at h
  split at h
  · rename_i hb
    cases h
    exact ⟨c, by rw [List.isEmpty_iff.mp hb, List.nil_append], List.Subset.refl c⟩
  · split at h
    · cases h
      exact ⟨[], (List.append_nil b).symm, List.nil_subset _⟩
    · exact foldlM_unifyOne_append h

/-- A variable that is bound keeps its value when another binding is unified with it. -/
theorem read_unify (h : b.unify c = some d) (hx : b.Binds x) : d.read x = b.read x := by
  obtain ⟨e, rfl, -⟩ := unify_append h
  obtain ⟨v, hv⟩ := hx
  rw [hv, read_eq_ok, Assoc.lookup_append, read_eq_ok.mp hv]
  rfl

end Binding

end RuleEngine
