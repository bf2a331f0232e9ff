import RuleEngine.Observer

/-!
# Options of a session

Whether effects are only collected, the order of equal salience, the step budget of a run, and the
observer.
-/

namespace RuleEngine

/-- How activations of equal salience are meant to be ordered. The choice is kept and has no
influence. -/
inductive Recency where
  | lifo
  | fifo
  deriving DecidableEq, Repr, Inhabited

def Recency.name : Recency → String
  | lifo => "lifo"
  | fifo => "fifo"

/-- Options of a session. Mirrors `SessionOptions`. -/
structure Options where
  pure : Bool
  recency : Recency
  maxSteps : Option Nat
  observer : Option Observer

def Options.default : Options := ⟨false, .lifo, none, none⟩

instance : Inhabited Options := ⟨Options.default⟩

end RuleEngine
