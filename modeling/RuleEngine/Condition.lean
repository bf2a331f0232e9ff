import RuleEngine.Pattern.Basic
import RuleEngine.Reference
import RuleEngine.Value.Container
import RuleEngine.Value.Order

/-!
# Conditions

A condition compares two sides, each a reference or a literal, by one of nine operators. It is
written as a sequence of three values. A list of conditions is a guard that asks them in order and
stops at the first that is false.
-/

namespace RuleEngine

inductive Operator where
  | eq
  | ne
  | order (r : Relation)
  | within
  | outside
  | contains
  deriving DecidableEq, Repr

/-- A condition on a binding. -/
structure Condition where
  operator : Operator
  left : Value
  right : Value
  deriving Repr

namespace Operator

def ofText? (s : String) : Option Operator :=
  match s with
  | "eq" => some .eq
  | "ne" => some .ne
  | "gt" => some (.order .gt)
  | "ge" => some (.order .ge)
  | "lt" => some (.order .lt)
  | "le" => some (.order .le)
  | "in" => some .within
  | "not_in" => some .outside
  | "contains" => some .contains
  | _ => none

def holds (op : Operator) (a b : Value) : Except Fault Bool :=
  match op with
  | .eq => .ok (a == b)
  | .ne => .ok !(a == b)
  | .order r => a.compare r b
  | .within => b.contains a
  | .outside => do return !(← b.contains a)
  | .contains => a.contains b

end Operator

namespace Condition

/-- The items of a value that is a sequence and not a text. -/
def sequence? : Value → Option (List Value)
  | .list xs | .tuple xs => some xs
  | .buffer bs => some (bs.map fun b => .int b.toNat)
  | _ => none

/-- The condition written by a value: an operator and two sides, at least one a reference. Mirrors
`validate_condition`. -/
def ofValue (atom : Value) : Except Error Condition :=
  match sequence? atom with
  | some [op, left, right] => do
    Fault.lift op.checkHashable
    match op.text?.bind Operator.ofText?, op.text? with
    | some operator, some text =>
      if (Reference.name? left).isNone ∧ (Reference.name? right).isNone then
        malformed (.conditionWithoutVariable text)
      else return ⟨operator, left, right⟩
    | _, _ => malformed (.conditionOperator op)
  | _ => malformed (.conditionShape atom)

/-- The variables a condition refers to, the left side's first. Mirrors `condition_variables`. -/
def variableNames (c : Condition) : List String :=
  [c.left, c.right].filterMap Reference.name?

/-- The value of a side under a binding. Mirrors `_resolve`. -/
def resolve (b : Binding) (side : Value) : Except Fault Value :=
  match Reference.name? side with
  | some name => b.read name
  | none => .ok (Reference.unescape side)

/-- mirrors `compile_condition` -/
def holds (c : Condition) (b : Binding) : Except Fault Bool := do
  let left ← resolve b c.left
  let right ← resolve b c.right
  c.operator.holds left right

/-- Whether all conditions hold, asked in order up to the first that does not. -/
def allHold : List Condition → Binding → Except Fault Bool
  | [], _ => .ok true
  | c :: cs, b => do if ← c.holds b then allHold cs b else return false

/-- The guard of a list of conditions; an empty list needs none. Mirrors `compile_conditions`. -/
def guard? (cs : List Condition) : Option Guard :=
  if cs.isEmpty then none else some fun b => (allHold cs b).map .bool

def ofValues (atoms : List Value) : Except Error (List Condition) := atoms.mapM ofValue

/-- The guard of conditions written by values, of which there must be at least one. Mirrors
`conditions`. -/
def guard (atoms : List Value) : Except Error Guard := do
  match guard? (← ofValues atoms) with
  | some g => return g
  | none => malformed .noConditions

end Condition

end RuleEngine
