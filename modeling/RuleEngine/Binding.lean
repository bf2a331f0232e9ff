import RuleEngine.Fact.Frozen

/-!
# Bindings

A binding gives values to variables, in the order in which they were bound. `Binding.unify` merges
two bindings; it fails when a variable bound in both has unequal values, and of two equal values it
keeps the first.
-/

namespace RuleEngine

/-- Values of variables, in the order in which they were bound. -/
abbrev Binding := List (Value × Value)

namespace Binding

/-- The value of the variable with this text, or a fault when it is unbound. -/
def read (b : Binding) (name : String) : Except Fault Value :=
  match Assoc.lookup (.text name) b with
  | some v => .ok v
  | none => .error (.missingKey (.text name))

/-- Adds one variable; an equal value changes nothing and an unequal one fails. -/
def unifyOne (b : Binding) (entry : Value × Value) : Option Binding :=
  match Assoc.lookup entry.1 b with
  | some v => if v == entry.2 then some b else none
  | none => some (b ++ [entry])

/-- Merges two bindings. Mirrors `unify`. -/
def unify (left right : Binding) : Option Binding :=
  if left.isEmpty then some right
  else if right.isEmpty then some left
  else right.foldlM unifyOne left

end Binding

end RuleEngine
