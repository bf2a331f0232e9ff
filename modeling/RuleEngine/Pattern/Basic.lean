import RuleEngine.Binding
import RuleEngine.Error
import RuleEngine.Notice
import RuleEngine.Value.Overlong

/-!
# Patterns

A pattern is a matcher over one fact and an optional guard over the binding unified so far. One
`Pattern.attempt` matches a fact under a binding: a matcher that fails or gives no map, a conflict,
and a guard that fails or is false all leave the pair unmatched. Failures of the host's functions
are logged with what they failed on and go no further, unless that cannot be written.
-/

namespace RuleEngine

/-- A function of the host from a fact to the variables it binds: a map, or anything else for no
match. -/
abbrev Matcher := Value → Except Fault Value

/-- A function of the host that accepts or rejects a binding by the truth of its result. -/
abbrev Guard := Binding → Except Fault Value

/-- Something handed in where an `α` is expected. -/
inductive Supplied (α : Type) where
  | fit (a : α)
  | other (v : Value)

/-- A matcher over one fact plus an optional guard over the unified binding. -/
structure Pattern where
  matcher : Matcher
  guard : Option Guard

/-- The outcome of matching one fact under a binding. -/
inductive Attempt where
  | matched (b : Binding)
  | unmatched
  | matcherFailed (fact : Value) (f : Fault)
  | guardFailed (b : Binding) (f : Fault)

namespace Attempt

def binding? : Attempt → Option Binding
  | matched b => some b
  | _ => none

def notices : Attempt → List Notice
  | matcherFailed .. => [.logged .debug "matcher_failed"]
  | guardFailed .. => [.logged .debug "guard_failed"]
  | _ => []

/-- Whether the attempt failed on something too long to be written to the log. -/
def isUnwritable : Attempt → Bool
  | matcherFailed fact f => fact.isOverlong || f.isOverlong
  | guardFailed b f => (Value.map b).isOverlong || f.isOverlong
  | _ => false

end Attempt

namespace Pattern

/-- The pattern made of a matcher and a guard, both checked to be callable. -/
def make (matcher : Supplied Matcher) (guard : Supplied Guard) : Except DefinitionError Pattern :=
  match matcher, guard with
  | .other _, _ => .error .matcherNotCallable
  | .fit m, .fit g => .ok ⟨m, some g⟩
  | .fit m, .other .none => .ok ⟨m, none⟩
  | .fit _, .other _ => .error .guardNotCallable

/-- Accepts or rejects the binding of a match. Mirrors `guard_passes`. -/
def checkGuard (p : Pattern) (b : Binding) : Attempt :=
  match p.guard with
  | none => .matched b
  | some guard => match guard b with
    | .error f => .guardFailed b f
    | .ok v => if v.truthy then .matched b else .unmatched

/-- Matches one fact under a binding. Mirrors `match_pattern`. -/
def attempt (p : Pattern) (fact : Value) (b : Binding) : Attempt :=
  match p.matcher fact with
  | .error f => .matcherFailed fact f
  | .ok v => match v.entries? with
    | none => .unmatched
    | some found => match b.unify found with
      | none => .unmatched
      | some merged => p.checkGuard merged

/-- The pattern a supplied thing is used as. Anything but a pattern fails on every fact. -/
def ofSupplied : Supplied Pattern → Pattern
  | .fit p => p
  | .other v => ⟨fun _ => .error (.missingAttribute v.className "matcher"), none⟩

end Pattern

end RuleEngine
