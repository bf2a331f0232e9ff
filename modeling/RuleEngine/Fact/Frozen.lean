import RuleEngine.Fact.Canonical
import RuleEngine.Value.Equality

/-!
# Frozen values

`Value.freeze` gives a hashable stand-in for a value. A hashable value stands for itself; a list
becomes a tuple, a set an unchangeable set, a map a tagged tuple of its entries in the order of
their shown form, a record its class with its fields, and anything else its digest.
-/

namespace RuleEngine.Value

def frozenMap (entries : List Value) : Value :=
  .tuple [.text "__map__", .tuple (Text.sortOn inspect entries)]

def frozenRecord (cls : String) (fields : List Value) : Value := .tuple [.text cls, .tuple fields]

def frozenDigest (v : Value) : Value := .tuple [.text "__digest__", .text v.digest]

mutual

/-- The hashable stand-in of a value. Mirrors `freeze`. -/
def freeze : Value → Value
  | .buffer bs => frozenDigest (.buffer bs)
  | .list xs | .tuple xs => .tuple (freezeAll xs)
  | .set xs | .frozenSet xs => .frozenSet (freezeAll xs)
  | .map es => frozenMap (freezeEntries es)
  | .object c fs =>
    if (Value.object c fs).hashable then .object c fs
    else match c.sort with
      | .record _ => frozenRecord c.name (freezeFields fs)
      | .labelled _ => frozenDigest (.object c fs)
  | .key k r b =>
    if (Value.key k r b).hashable then .key k r b
    else frozenRecord "FactKey"
      [.tuple [.text "kind", freeze k], .tuple [.text "ref", freeze r],
       .tuple [.text "by_content", freeze b]]
  | v => v
termination_by structural v => v

def freezeAll : List Value → List Value
  | [] => []
  | x :: xs => freeze x :: freezeAll xs
termination_by structural xs => xs

def freezeEntries : List (Value × Value) → List Value
  | [] => []
  | (k, v) :: es => .tuple [freeze k, freeze v] :: freezeEntries es
termination_by structural es => es

def freezeFields : List (String × Value) → List Value
  | [] => []
  | (n, v) :: fs => .tuple [.text n, freeze v] :: freezeFields fs
termination_by structural fs => fs

end

end RuleEngine.Value
