import RuleEngine.Binding
import RuleEngine.Value.HashImage
import RuleEngine.Value.Overlong

/-!
# Tokens and activations

An activation is a rule together with a binding of its patterns. Its token, the rule's name with the
frozen binding, is what firing remembers.
-/

namespace RuleEngine

/-- The weight of a rule, together with the enumeration member it was given as, if any. -/
structure Salience where
  amount : Int
  member : Option Member
  deriving DecidableEq, Repr, Inhabited

def Salience.ofInt (n : Int) : Salience := ⟨n, none⟩

def Salience.value (s : Salience) : Value :=
  match s.member with
  | some m => .member m
  | none => .int s.amount

/-- The identity of an activation: the rule's name and the frozen binding. -/
structure Token where
  rule : Name
  binding : Value
  deriving Repr, Inhabited

namespace Token

instance : BEq Token := ⟨fun s t => s.rule.text == t.rule.text && s.binding == t.binding⟩

def frozen (rule : Name) (b : Binding) : Token := ⟨rule, (Value.map b).freeze⟩

/-- The token of a rule and a binding. Fails if the binding has no stand-in. Mirrors `Token.of`. -/
def of (rule : Name) (b : Binding) : Except Fault Token := do
  (Value.map b).checkFreezable
  return frozen rule b

def hashImage (t : Token) : String :=
  Value.tupleImage [Value.textImage t.rule.text, t.binding.hashImage]

/-- The tokens with one more, unless an equal one is there. -/
def add (t : Token) (ts : List Token) : List Token := if ts.any (· == t) then ts else ts ++ [t]

end Token

/-- A rule with a binding of its patterns, waiting to fire. -/
structure Activation where
  rule : Name
  binding : Binding
  salience : Salience
  once : Bool
  token : Token
  deriving Repr, Inhabited

namespace Activation

def make (rule : Name) (b : Binding) (salience : Salience) (once : Bool) : Activation :=
  ⟨rule, b, salience, once, Token.frozen rule b⟩

/-- The activation of a rule under a binding, with its own token. Fails where there is none. -/
def of (rule : Name) (b : Binding) (salience : Salience) (once : Bool) :
    Except Fault Activation := do
  return ⟨rule, b, salience, once, ← Token.of rule b⟩

/-- Equality of activations does not look at the token. -/
instance : BEq Activation := ⟨fun a b =>
  a.rule.text == b.rule.text && Value.map a.binding == Value.map b.binding
    && a.salience.amount == b.salience.amount && a.once == b.once⟩

/-- Whether a set would hold the two activations as one: they are equal and hash alike, and the hash
of an activation is that of its token. -/
def sameMember (a b : Activation) : Bool := a.token.hashImage == b.token.hashImage && a == b

/-- The order of firing: higher salience first, then the smaller name. Mirrors
`Activation.sort_key`. -/
def notAfter (a b : Activation) : Bool :=
  b.salience.amount < a.salience.amount
    || (a.salience.amount == b.salience.amount && !decide (b.rule.text < a.rule.text))

end Activation

end RuleEngine
