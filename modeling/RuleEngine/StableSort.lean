/-!
# Stable sorting

Insertion sort by a test that says whether one item may stand before another. Items that may stand
in either order keep the order in which they were given.
-/

namespace RuleEngine.StableSort

variable {α : Type}

/-- A sorted list with one more item, which goes before the items it may stand before. -/
def insert (before : α → α → Bool) (x : α) : List α → List α
  | [] => [x]
  | y :: ys => if before x y then x :: y :: ys else y :: insert before x ys

def sort (before : α → α → Bool) : List α → List α
  | [] => []
  | x :: xs => insert before x (sort before xs)

end RuleEngine.StableSort
