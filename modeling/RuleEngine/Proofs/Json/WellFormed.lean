import RuleEngine.Proofs.Assoc
import RuleEngine.Proofs.Json.Soundness
import RuleEngine.Proofs.Value.WellFormed

/-!
# What JSON texts write

Values read from JSON texts are well-formed: of several entries under one key only one is left, and
all keys are texts. This is a fact about the grammar, so one induction on what a text writes goes
through values, items and entries together.
-/

namespace RuleEngine.Json

variable {t : List Char} {v : Value} {es : List (Value × Value)} {p : Part}

/-- The entry is one that a JSON text writes: its key is a text and its value is well-formed. -/
def IsEntry (e : Value × Value) : Prop := (∃ s, e.1 = .text s) ∧ e.2.WellFormed

theorem words_wellFormed : ∀ w ∈ words, w.2.WellFormed := by
  simp only [words, List.forall_mem_cons]
  refine ⟨?_, ?_, ?_, ?_, ?_, ?_, List.forall_mem_nil _⟩
  all_goals exact .atom rfl (by simp)

theorem IsToken.wellFormed (h : IsToken t v) : v.WellFormed := by
  cases h with
  | word h => exact words_wellFormed _ h
  | number h =>
    cases h with
    | whole | float => exact .atom rfl (by simp)
  | string => exact Value.wellFormed_text _

/-- A map of entries of which the last under a key counts is well-formed. -/
theorem update_wellFormed (h : ∀ e ∈ es, IsEntry e) :
    (Value.map (Assoc.update [] es)).WellFormed := by
  have hall : ∀ e ∈ Assoc.update [] es, IsEntry e := fun e he =>
    Assoc.update_forall (P := fun k : Value => ∃ s, k = .text s) (Q := Value.WellFormed)
      (List.forall_mem_nil _) h e he
  refine .map ?_ ?_ ?_ ?_
  · intro e he
    obtain ⟨⟨s, hs⟩, -⟩ := hall e he
    rw [hs]
    exact Value.wellFormed_text s
  · exact fun e he => (hall e he).2
  · intro e he
    obtain ⟨⟨s, hs⟩, -⟩ := hall e he
    rw [hs]
    rfl
  · exact Assoc.update_distinct .nil

def Part.WellFormed : Part → Prop
  | .value v => v.WellFormed
  | .items xs => ∀ x ∈ xs, x.WellFormed
  | .entries es => ∀ e ∈ es, IsEntry e

theorem Writes.wellFormed (h : Writes t p) : p.WellFormed := by
  induction h with
  | token h => exact h.wellFormed
  | emptyArray => exact .list (List.forall_mem_nil _)
  | array _ _ ih => exact .list ih
  | emptyObject => exact update_wellFormed (List.forall_mem_nil _)
  | object _ _ ih => exact update_wellFormed ih
  | lastItem _ _ ih => exact List.forall_mem_singleton.mpr ih
  | item _ _ _ ih ihrest => exact List.forall_mem_cons.mpr ⟨ih, ihrest⟩
  | lastEntry _ _ _ ih => exact List.forall_mem_singleton.mpr ⟨⟨_, rfl⟩, ih⟩
  | entry _ _ _ _ ih ihrest => exact List.forall_mem_cons.mpr ⟨⟨⟨_, rfl⟩, ih⟩, ihrest⟩

theorem read_wellFormed {s : String} (h : read s = .ok v) : v.WellFormed := by
  obtain ⟨_, _, _, -, hwrites, -, -⟩ := read_eq_ok.mp h
  exact hwrites.wellFormed

end RuleEngine.Json
