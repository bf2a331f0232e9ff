import RuleEngine.Text.Identifier
import RuleEngine.Value.Basic

/-!
# References

A text `$name` refers to the variable `name`, provided the name is an identifier. A text that begins
with `$$` stands for itself less the first `$`.
-/

namespace RuleEngine.Reference

/-- The variable a text refers to. -/
def ofText? (s : String) : Option String :=
  match s.toList with
  | '$' :: cs => if Text.isIdentifier cs then some (String.ofList cs) else none
  | _ => none

/-- The variable a value refers to. Mirrors `is_var_ref` and `var_name`. -/
def name? (v : Value) : Option String := v.text?.bind ofText?

/-- The literal a value stands for. Mirrors `unescape`. -/
def unescape (v : Value) : Value :=
  match v.text?.map String.toList with
  | some ('$' :: '$' :: cs) => .text (String.ofList ('$' :: cs))
  | _ => v

end RuleEngine.Reference
