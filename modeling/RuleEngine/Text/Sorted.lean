import RuleEngine.StableSort

/-!
# Sorting by text

A stable sort by a text computed from each item, in the order of code points.
-/

namespace RuleEngine.Text

def notAfter (s t : String) : Bool := !decide (t < s)

/-- The items in the order of their texts; items with one text keep their order. -/
def sortOn {α : Type} (key : α → String) (xs : List α) : List α :=
  (StableSort.sort (fun a b => notAfter a.1 b.1) (xs.map fun x => (key x, x))).map (·.2)

/-- Texts in the order of code points. -/
def sort (xs : List String) : List String := StableSort.sort notAfter xs

end RuleEngine.Text
