import RuleEngine.Value.Equality

/-!
# Effects

What an action asks for. Effects on memory change the facts of a session; the others are passed
through to the host. An effect list may hold other values, which a session drops.
-/

namespace RuleEngine

/-- What an action asks for. -/
inductive Effect where
  | assert (fact : Value)
  | retract (target : Value)
  | upsert (fact : Value)
  | emit (name payload : Value)
  | log (level message : Value)
  | set (key value : Value)
  deriving Repr, Inhabited

namespace Effect

def eqv : Effect → Effect → Bool
  | assert a, assert b | retract a, retract b | upsert a, upsert b => a == b
  | emit n p, emit n' p' => n == n' && p == p'
  | log l m, log l' m' => l == l' && m == m'
  | set k v, set k' v' => k == k' && v == v'
  | _, _ => false

instance : BEq Effect := ⟨eqv⟩

def fields : Effect → List (String × Value)
  | assert v => [("op", .text "assert"), ("fact", v)]
  | retract v => [("op", .text "retract"), ("target", v)]
  | upsert v => [("op", .text "upsert"), ("fact", v)]
  | emit n p => [("op", .text "emit"), ("name", n), ("payload", p)]
  | log l m => [("op", .text "log"), ("level", l), ("message", m)]
  | set k v => [("op", .text "set"), ("key", k), ("value", v)]

end Effect

/-- A member of an effect list. -/
inductive Item where
  | effect (e : Effect)
  | other (v : Value)
  deriving Repr, Inhabited

namespace Item

instance : BEq Item := ⟨fun
  | effect a, effect b => a == b
  | other v, other w => v == w
  | _, _ => false⟩

def effect? : Item → Option Effect
  | effect e => some e
  | other _ => none

end Item

end RuleEngine
