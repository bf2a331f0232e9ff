/-!
# Association lists

Entries in insertion order, looked up by the first key that is equal. Replacing a value keeps the
entry's position and its key; a new entry goes to the end.
-/

namespace RuleEngine.Assoc

variable {κ : Type} {α : Type} [BEq κ]

def lookup (k : κ) : List (κ × α) → Option α
  | [] => none
  | (k', v) :: es => if k' == k then some v else lookup k es

def contains (k : κ) (es : List (κ × α)) : Bool := es.any fun e => e.1 == k

def insert (k : κ) (v : α) : List (κ × α) → List (κ × α)
  | [] => [(k, v)]
  | (k', v') :: es => if k' == k then (k', v) :: es else (k', v') :: insert k v es

def erase (k : κ) : List (κ × α) → List (κ × α)
  | [] => []
  | (k', v) :: es => if k' == k then es else (k', v) :: erase k es

/-- The first entries with those of a second list inserted in order. -/
def update (es fs : List (κ × α)) : List (κ × α) := fs.foldl (fun acc e => insert e.1 e.2 acc) es

end RuleEngine.Assoc
