import RuleEngine.Fact.Key

/-!
# Working memory

Facts in the order in which their identities appeared, at most one per identity. Asserting a known
identity changes nothing; upserting replaces an unequal fact in its place; retracting removes it.
Each operation also gives the key it changed something under, if it did.
-/

namespace RuleEngine

/-- Facts under their identities, in the order of appearance. Mirrors `WorkingMemory`. -/
structure Memory where
  entries : List (FactKey × Value)
  deriving Repr, Inhabited

namespace Memory

def empty : Memory := ⟨[]⟩

def facts (m : Memory) : List Value := m.entries.map (·.2)

def keys (m : Memory) : List FactKey := m.entries.map (·.1)

def size (m : Memory) : Nat := m.entries.length

/-- The fact under a key, which must be hashable. Mirrors `WorkingMemory.get`. -/
def get (m : Memory) (k : FactKey) : Except Fault (Option Value) := do
  k.checkHashable
  return Assoc.lookup k m.entries

/-- Whether a key, which must be hashable, is known. -/
def hasKey (m : Memory) (k : FactKey) : Except Fault Bool := do
  return (← m.get k).isSome

/-- Whether the identity of a fact is known. -/
def contains (m : Memory) (fact : Value) : Except Fault Bool := do m.hasKey (← Fact.key fact)

/-- mirrors `WorkingMemory._put` -/
def put (m : Memory) (k : FactKey) (fact : Value) : Memory := ⟨Assoc.insert k fact m.entries⟩

/-- Adds a fact unless its identity is known. Mirrors `WorkingMemory.assert_fact`. -/
def assert (m : Memory) (fact : Value) : Except Fault (Memory × Option FactKey) := do
  let k ← Fact.key fact
  if ← m.hasKey k then return (m, none) else return (m.put k fact, some k)

/-- Adds a fact or replaces the unequal one of its identity. Mirrors `WorkingMemory.upsert`. -/
def upsert (m : Memory) (fact : Value) : Except Fault (Memory × Option FactKey) := do
  let k ← Fact.key fact
  match ← m.get k with
  | some old => if old == fact then return (m, none) else return (m.put k fact, some k)
  | none => return (m.put k fact, some k)

/-- The key a pair of a kind and an id stands for. -/
def pairKey? (target : Value) : Except Fault (Option FactKey) :=
  match target with
  | .tuple [kind, id] => match kind.name? with
    | some n => (FactKey.ofId n.value id).map some
    | none => .ok none
  | _ => .ok none

/-- The key a retraction is aimed at: that of a pair of a kind and an id if it is known, else the
identity of the fact given. Mirrors `WorkingMemory._target_key`. -/
def target (m : Memory) (t : Value) : Except Fault FactKey := do
  match ← pairKey? t with
  | some k => if ← m.hasKey k then return k else Fact.key t
  | none => Fact.key t

/-- Removes a fact by its key, by kind and id, or by a fact of its identity. Mirrors
`WorkingMemory.retract`. -/
def retract (m : Memory) (t : Value) : Except Fault (Memory × Option FactKey) := do
  let k ← m.target t
  if ← m.hasKey k then return (⟨Assoc.erase k m.entries⟩, some k) else return (m, none)

end Memory

end RuleEngine
