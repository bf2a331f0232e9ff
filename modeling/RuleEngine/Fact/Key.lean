import RuleEngine.Fact.Frozen
import RuleEngine.Value.Attribute
import RuleEngine.Value.Overlong

/-!
# Identity of facts

A fact is known by its kind and its id, or by its kind and the digest of its content when it has no
id. A `FactKey` given in place of a fact is its own identity.
-/

namespace RuleEngine

/-- The identity of a fact in working memory. -/
structure FactKey where
  kind : Value
  ref : Value
  byContent : Value
  deriving Repr, Inhabited

namespace FactKey

def value (k : FactKey) : Value := .key k.kind k.ref k.byContent

instance : BEq FactKey := ⟨fun a b => a.value == b.value⟩

/-- Fails unless every part of the key is hashable. -/
def checkHashable (k : FactKey) : Except Fault Unit := do
  k.kind.checkHashable
  k.ref.checkHashable
  k.byContent.checkHashable

def display (k : FactKey) : String := k.value.display

def ofId (kind id : Value) : Except Fault FactKey := do
  id.checkFreezable
  return ⟨kind, id.freeze, .bool false⟩

end FactKey

namespace Fact

/-- The kind a fact states: the entry `kind` of a map. -/
def statedKind? (fact : Value) : Option Value :=
  match fact.entry? "kind" with
  | some .none | none => none
  | some k => some k

/-- The kind of a fact: the one it states, else the name of its class. Mirrors `fact_kind`. -/
def kind (fact : Value) : String := (statedKind? fact).elim fact.className Value.display

/-- The id of a fact: the entry or attribute `id`, unless it is missing or can be called. Mirrors
`fact_id`. -/
def id (fact : Value) : Except Fault Value :=
  match fact with
  | .map _ => .ok ((fact.entry? "id").getD .none)
  | _ => do
    match ← fact.attributeOf "id" with
    | some v => return if v.isCallable then .none else v
    | none => return .none

/-- The identity of a fact. Kinds and digests are found by writing what they are read from. Mirrors
`fact_key`. -/
def key (fact : Value) : Except Fault FactKey :=
  match fact with
  | .key k r b => .ok ⟨k, r, b⟩
  | _ => do
    ((statedKind? fact).getD .none).checkText
    match ← id fact with
    | .none =>
      fact.checkContent
      return ⟨.text (kind fact), .text fact.digest, .bool true⟩
    | i => FactKey.ofId (.text (kind fact)) i

end Fact

end RuleEngine
