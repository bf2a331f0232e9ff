import RuleEngine.Error
import RuleEngine.Value.Container
import RuleEngine.View

/-!
# Actions

An action is a function of the host from a context to a result, from which a list of effects is
read. Failures of the action are errors of its rule; a result that holds no list where one is read,
or one that fails while it is gone through, is a fault of its own.
-/

namespace RuleEngine

/-- What an action sees: the session, its binding and the effects so far. -/
structure ActionContext where
  view : View
  binding : Binding
  effects : List Item

/-- What going through something of the host gives: its items, or the fault it fails with on the
way. -/
abbrev Listing := Except Fault (List Item)

/-- What an action answers. An effect list holds its items; contexts, sequences and the entry
`effects` of a record are gone through only when the answer is read. -/
inductive ActionResult where
  | context (effects : Listing)
  | effects (items : List Item)
  | sequence (items : Listing)
  | record (effects : Option Listing)
  | item (i : Item)

/-- A function of the host that answers with effects. -/
abbrev Action := ActionContext → Except Fault ActionResult

namespace ActionContext

def add (c : ActionContext) (i : Item) : ActionContext := { c with effects := c.effects ++ [i] }

def get (c : ActionContext) (name : Value) : Except Fault Value := (Value.map c.binding).item name

end ActionContext

namespace ActionResult

/-- The effect list of a plain value: the entry `effects` of a map, the items of a sequence, nothing
for none, and else the value alone. -/
def itemsOfValue (v : Value) : Listing :=
  match v with
  | .map _ =>
    let es := (v.entry? "effects").getD .none
    if es.truthy then es.iterate.map (·.map .other) else .ok []
  | .none => .ok []
  | .list xs | .tuple xs => .ok (xs.map .other)
  | _ => .ok [.other v]

/-- The effect list of a result. Mirrors `normalize_effects`. -/
def items : ActionResult → Listing
  | effects is => .ok is
  | context is | sequence is => is
  | record is => is.getD (.ok [])
  | item (.effect e) => .ok [.effect e]
  | item (.other v) => itemsOfValue v

end ActionResult

end RuleEngine
