import RuleEngine.Pattern.Term
import RuleEngine.Proofs.Traced

/-!
# What a declaration of a pattern gives

A pattern is declared by a kind, field terms, a guard and a variable for the whole fact, each of
which is checked. Declaring gives a pattern exactly if all checks pass, and its matcher depends on
nothing but the kind, the terms and the variable (`declare_eq_ok`). So the same pattern can be
declared with any guard, or with none (`declare_guard`).
-/

namespace RuleEngine.Pattern

variable {kind : Supplied Kind} {fields bind : Value} {keywords es : List (Value × Value)}
variable {m : Matcher} {g : Option Guard} {guard : Supplied Guard} {p : Pattern}

/-- The field terms given as a whole. What counts as false gives none. -/
def givenTerms (fields : Value) : Except Fault (List (Value × Value)) :=
  if fields.truthy then fields.toEntries else .ok []

theorem make_eq_ok (h : make (.fit m) guard = .ok p) : p.matcher = m := by
  cases guard with
  | fit g =>
    cases h
    rfl
  | other v =>
    cases v with
    | none =>
      cases h
      rfl
    | _ => cases h

theorem make_guard : make (.fit m) (g.elim (.other .none) .fit) = .ok p ↔ p = ⟨m, g⟩ := by
  cases g <;> simp [make, eq_comm]

/-- What a declaration has to be for a pattern to come of it, and which pattern that is. -/
theorem declare_eq_ok : declare kind fields keywords guard bind = .ok p ↔
    checkKeywords keywords = .ok () ∧ ∃ k, Kind.check kind = .ok k ∧ ∃ o, checkBind bind = .ok o ∧
      ∃ es, givenTerms fields = .ok es ∧ Term.allWellNamed (Assoc.update es keywords) = true ∧
        make (.fit (matcherOf k (Assoc.update es keywords) o)) guard = .ok p := by
  have hterms {k : Kind} {o : Option Name} {x : Except Fault (List (Value × Value))} :
      (Fault.lift x >>= fun es => if Term.allWellNamed (Assoc.update es keywords) = true then
        (make (.fit (matcherOf k (Assoc.update es keywords) o)) guard).mapError Error.definition
        else malformed .fieldName) = .ok p ↔
      ∃ es, x = .ok es ∧ Term.allWellNamed (Assoc.update es keywords) = true ∧
        make (.fit (matcherOf k (Assoc.update es keywords) o)) guard = .ok p := by
    rw [bind_eq_ok]
    simp only [lift_eq_ok]
    refine exists_congr fun es => and_congr_right fun _ => ?_
    split
    · rename_i h
      rw [mapError_eq_ok, and_iff_right h]
    · rename_i h
      exact iff_of_false nofun fun k => h k.1
  have hnone : (pure [] : Except Error (List (Value × Value))) = Fault.lift (.ok []) := rfl
  unfold declare givenTerms
  rw [bind_eq_ok]
  simp only [lift_eq_ok, mapError_eq_ok, bind_eq_ok, hnone]
  cases fields.truthy <;> simp only [if_true, Bool.false_eq_true, if_false, hterms] <;>
    exact ⟨fun ⟨_, h⟩ => h, fun h => ⟨(), h⟩⟩

theorem declare_guard : declare kind fields keywords (g.elim (.other .none) .fit) bind = .ok p ↔
    ∃ m, declare kind fields keywords (.other .none) bind = .ok ⟨m, none⟩ ∧ p = ⟨m, g⟩ := by
  simp only [declare_eq_ok, make_guard]
  constructor
  · rintro ⟨hkeywords, k, hkind, o, hbind, es, hes, hnamed, rfl⟩
    exact ⟨_, ⟨hkeywords, k, hkind, o, hbind, es, hes, hnamed, rfl⟩, rfl⟩
  · rintro ⟨m, ⟨hkeywords, k, hkind, o, hbind, es, hes, hnamed, hmake⟩, rfl⟩
    obtain rfl := make_eq_ok hmake
    exact ⟨hkeywords, k, hkind, o, hbind, es, hes, hnamed, rfl⟩

end RuleEngine.Pattern
