import RuleEngine.Proofs.Failure
import RuleEngine.Session.Change

/-!
# The faults of working memory

Finding the identity of a fact reads its id, and writes its kind and its content; a memory hashes
the identity. Nothing else about a fact can go wrong, so a change of the facts fails on one of few
faults (`Fault.Legitimate`), whatever the fact is.

* `Fact.key_failsLegitimately`: finding an identity.
* `Memory.run_failsLegitimately`, `Change.metadata_failsLegitimately`: a change of the facts, and
  what it announces.
-/

namespace RuleEngine

/-! ## Identities -/

theorem FactKey.checkHashable_failsLegitimately (k : FactKey) :
    FailsLegitimately k.checkHashable :=
  .bind (k.kind.checkHashable_failsAs .unhashable) fun _ _ =>
    .bind (k.ref.checkHashable_failsAs .unhashable) fun _ _ =>
      k.byContent.checkHashable_failsAs .unhashable

theorem FactKey.ofId_failsLegitimately (kind id : Value) : FailsLegitimately (ofId kind id) :=
  .bind (checkLength_failsAs .unwritableInteger _) fun _ _ => .pure _

theorem Fact.id_failsLegitimately (fact : Value) : FailsLegitimately (Fact.id fact) := by
  unfold Fact.id
  split
  · exact .ok _
  · refine .bind (fact.attributeOf_failsAs .faultyAttribute "id") fun o _ => ?_
    cases o <;> exact .pure _

/-- Finding the identity of a fact fails only where its id cannot be read, or something of it is too
long to be written. -/
theorem Fact.key_failsLegitimately (fact : Value) : FailsLegitimately (Fact.key fact) := by
  unfold Fact.key
  split
  · exact .ok _
  · refine .bind (checkLength_failsAs .unwritableInteger _) fun _ _ =>
      .bind (Fact.id_failsLegitimately fact) fun i _ => ?_
    split
    · exact .bind (checkLength_failsAs .unwritableInteger _) fun _ _ => .pure _
    · exact FactKey.ofId_failsLegitimately _ _

/-! ## Memory -/

namespace Memory

variable (m : Memory)

theorem get_failsLegitimately (k : FactKey) : FailsLegitimately (m.get k) :=
  .bind k.checkHashable_failsLegitimately fun _ _ => .pure _

theorem hasKey_failsLegitimately (k : FactKey) : FailsLegitimately (m.hasKey k) :=
  .bind (m.get_failsLegitimately k) fun _ _ => .pure _

theorem pairKey?_failsLegitimately (target : Value) : FailsLegitimately (pairKey? target) := by
  unfold pairKey?
  split
  · split
    · exact .map _ (FactKey.ofId_failsLegitimately _ _)
    · exact .ok _
  · exact .ok _

theorem target_failsLegitimately (t : Value) : FailsLegitimately (m.target t) := by
  refine .bind (pairKey?_failsLegitimately t) fun o _ => ?_
  cases o with
  | none => exact Fact.key_failsLegitimately t
  | some k =>
    refine .bind (m.hasKey_failsLegitimately k) fun known _ => ?_
    cases known with
    | false => exact Fact.key_failsLegitimately t
    | true => exact .pure _

/-- A change of the facts fails only where the identity it is aimed at cannot be found or hashed. -/
theorem run_failsLegitimately (c : Change) : FailsLegitimately (c.run m) := by
  cases c with
  | assert fact =>
    refine .bind (Fact.key_failsLegitimately fact) fun k _ =>
      .bind (m.hasKey_failsLegitimately k) fun known _ => ?_
    cases known <;> exact .pure _
  | retract target =>
    refine .bind (m.target_failsLegitimately target) fun k _ =>
      .bind (m.hasKey_failsLegitimately k) fun known _ => ?_
    cases known <;> exact .pure _
  | upsert fact =>
    refine .bind (Fact.key_failsLegitimately fact) fun k _ =>
      .bind (m.get_failsLegitimately k) fun held _ => ?_
    cases held with
    | none => exact .pure _
    | some old =>
      dsimp only
      split <;> exact .pure _

end Memory

theorem Change.metadata_failsLegitimately (m : Memory) (c : Change) :
    FailsLegitimately (c.metadata m) := by
  cases c with
  | upsert fact =>
    exact .bind (.bind (Fact.key_failsLegitimately fact) fun k _ => m.hasKey_failsLegitimately k)
      fun _ _ => .pure _
  | assert | retract => exact .ok _

end RuleEngine
