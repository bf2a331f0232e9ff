import RuleEngine.Rule

/-!
# Declared rules

A function of the host may carry a declaration that makes it the action of a rule: the patterns, the
settings, and a name or else that of the function.
-/

namespace RuleEngine

/-- What a function declares to be a rule. Mirrors `RuleDef`. -/
structure Declaration where
  name : Option Name
  patterns : List Pattern
  salience : Value
  once : Value
  mode : Value
  throttle : Value

/-- A function of the host: its name, the module it belongs to, what it declares and does. -/
structure HostFunction where
  name : Option String
  home : String
  declaration : Option Declaration
  action : Action

namespace Declaration

/-- The declaration with these parts. A name must be a text that is not empty. Mirrors `rule`. -/
def make (name : Value) (patterns : List (Supplied Pattern)) (salience once mode throttle : Value) :
    Except DefinitionError Declaration :=
  match name, name.name?.filter (fun n => n.text != ""), Rule.checkPatterns patterns with
  | .none, _, some ps => .ok ⟨none, ps, salience, once, mode, throttle⟩
  | _, some n, some ps => .ok ⟨some n, ps, salience, once, mode, throttle⟩
  | .none, _, none | _, some _, none => .error .declaredPatterns
  | _, none, _ => .error .declaredName

/-- The rule declared, with a name for want of another. Mirrors `RuleDef.build`. -/
def build (d : Declaration) (action : Action) (defaultName : String) :
    Except DefinitionError Rule :=
  Rule.make (d.name.elim (.text defaultName) Name.value) (d.patterns.map .fit) (.fit action)
    d.salience d.once d.mode d.throttle

end Declaration

namespace HostFunction

/-- The function as it is shown. What stands for its place in memory is left out. -/
def inspect (f : HostFunction) : String :=
  match f.name with
  | some n => "<function " ++ n ++ " at 0x>"
  | none => "<callable at 0x>"

/-- Calls a function with a name, where it expects what actions see; there is nothing to see. -/
def callWithName (f : HostFunction) : Except Fault Unit := do
  let _ ← f.action ⟨.initial .default, [], []⟩

def rule (f : HostFunction) : Except DefinitionError Rule :=
  match f.declaration with
  | some d => d.build f.action (f.name.getD "rule")
  | none => .error (.notDeclared f.inspect)

end HostFunction

end RuleEngine
