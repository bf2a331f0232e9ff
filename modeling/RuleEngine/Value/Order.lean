import RuleEngine.Value.Equality

/-!
# Order of values

Numbers are ordered by value, texts by code points, octets by number, sequences of one type by the
first items that differ, sets by inclusion. All other comparisons fail.
-/

namespace RuleEngine

inductive Relation where
  | lt
  | le
  | gt
  | ge
  deriving DecidableEq, Repr

namespace Relation

/-- The sign of the relation. -/
def sign : Relation → String
  | lt => "<"
  | le => "<="
  | gt => ">"
  | ge => ">="

/-- The relation on a total order, from its strict part. -/
def decide (r : Relation) (below above : Bool) : Bool :=
  match r with
  | lt => below
  | le => !above
  | gt => above
  | ge => !below

def onNumbers (r : Relation) (a b : Number) : Bool :=
  match r with
  | lt => a.lt b
  | le => a.le b
  | gt => b.lt a
  | ge => b.le a

end Relation

namespace Value

/-- Whether every value of the first list is equal to one of the second. -/
def subset (xs ys : List Value) : Bool := xs.all fun x => ys.any (x == ·)

/-- The relation on sets, read as inclusion. -/
def inclusion (r : Relation) (xs ys : List Value) : Bool :=
  match r with
  | .lt => xs.length < ys.length && subset xs ys
  | .le => xs.length ≤ ys.length && subset xs ys
  | .gt => ys.length < xs.length && subset ys xs
  | .ge => ys.length ≤ xs.length && subset ys xs

def compareAtoms (r : Relation) (v w : Value) : Except Fault Bool :=
  match v.number?, w.number?, v.text?, w.text?, v.octets?, w.octets?, v.members?, w.members? with
  | some a, some b, _, _, _, _, _, _ => .ok (r.onNumbers a b)
  | _, _, some a, some b, _, _, _, _ => .ok (r.decide (a < b) (b < a))
  | _, _, _, _, some a, some b, _, _ => .ok (r.decide (a < b) (b < a))
  | _, _, _, _, _, _, some a, some b => .ok (inclusion r a b)
  | _, _, _, _, _, _, _, _ => .error (.incomparable r.sign v.className w.className)

mutual

/-- Whether the relation holds. -/
def compare (r : Relation) : Value → Value → Except Fault Bool
  | .list xs, w => match w with
    | .list ys => compareItems r xs ys
    | w => .error (.incomparable r.sign "list" w.className)
  | .tuple xs, w => match w with
    | .tuple ys => compareItems r xs ys
    | w => .error (.incomparable r.sign "tuple" w.className)
  | v, w => compareAtoms r v w
termination_by structural v => v

/-- The relation of the first items that differ; a proper beginning is below the whole. -/
def compareItems (r : Relation) : List Value → List Value → Except Fault Bool
  | [], ys => .ok (r.decide (!ys.isEmpty) false)
  | x :: xs, ys => match ys with
    | [] => .ok (r.decide false true)
    | y :: ys => if x == y then compareItems r xs ys else compare r x y
termination_by structural xs => xs

end

end Value

end RuleEngine
