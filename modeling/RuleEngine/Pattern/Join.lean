import RuleEngine.Pattern.Basic
import RuleEngine.Traced

/-!
# Joins

The bindings under which a list of patterns matches a list of facts: every pattern extends every
binding found so far with every fact, patterns outermost and facts innermost. A match logs the
failures of matchers and guards it meets, and fails where one of them cannot be written.
-/

namespace RuleEngine.Pattern

/-- All attempts at extending the bindings with one pattern, in order. -/
def attempts (p : Pattern) (facts : List Value) (bs : List Binding) : List Attempt :=
  bs.flatMap fun b => facts.map fun fact => p.attempt fact b

/-- The bindings extended with one pattern. Mirrors `extend_bindings`. -/
def extend (p : Pattern) (facts : List Value) (bs : List Binding) : List Binding :=
  (p.attempts facts bs).filterMap Attempt.binding?

/-- The bindings extended with each pattern in turn. -/
def joinFrom (facts : List Value) (bs : List Binding) (ps : List Pattern) : List Binding :=
  ps.foldl (fun acc p => p.extend facts acc) bs

/-- The bindings under which all patterns match. -/
def join (ps : List Pattern) (facts : List Value) : List Binding := joinFrom facts [[]] ps

/-- All attempts of a join that starts from these bindings, in order. -/
def joinAttempts (facts : List Value) : List Binding → List Pattern → List Attempt
  | _, [] => []
  | bs, p :: ps =>
    let here := p.attempts facts bs
    here ++ joinAttempts facts (here.filterMap Attempt.binding?) ps

/-- The bindings under which all patterns match, with the log entries of the attempts that failed.
Fails at an attempt that cannot be logged. Mirrors `match_patterns`. -/
def matchAll (ps : List Pattern) (facts : List Value) : Traced (List Binding) := do
  let (logged, rest) := (joinAttempts facts [[]] ps).span fun a => !a.isUnwritable
  Traced.give (logged.flatMap Attempt.notices)
  if rest.isEmpty then return join ps facts
  else Traced.ofExcept (.error (.fault .unwritableInteger))

end RuleEngine.Pattern
