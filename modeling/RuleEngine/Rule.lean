import RuleEngine.Action
import RuleEngine.Pattern.Join

/-!
# Rules

A rule joins patterns and runs an action for each binding they match under. A rule in mode `once`
fires a single time; in mode `perFact` once for each binding.
-/

namespace RuleEngine

/-- How often a rule may fire. Mirrors `RuleMode`. -/
inductive Mode where
  | once
  | perFact
  deriving DecidableEq, Repr, Inhabited

namespace Mode

def enumeration : Enumeration :=
  ⟨"RuleMode", [("ONCE", .text "once"), ("PER_FACT", .text "per_fact")]⟩

def member : Mode → Member
  | once => ⟨enumeration, "ONCE", .text "once"⟩
  | perFact => ⟨enumeration, "PER_FACT", .text "per_fact"⟩

def ofValue? (v : Value) : Option Mode :=
  [once, perFact].find? fun m => Value.member m.member == v

end Mode

/-- A rule. It has a name and at least one pattern, and it is a `once` rule exactly in that mode.
Mirrors `Rule`. -/
structure Rule where
  name : Name
  patterns : List Pattern
  action : Action
  salience : Salience
  once : Bool
  mode : Mode
  throttle : Value
  name_ne_empty : name.text ≠ ""
  patterns_ne_nil : patterns ≠ []
  once_eq : once = (mode == .once)

namespace Rule

/-- The patterns among supplied things, all of which must be patterns. -/
def checkPatterns (ps : List (Supplied Pattern)) : Option (List Pattern) :=
  ps.mapM fun
    | .fit p => some p
    | .other _ => none

/-- The salience a value gives: a whole number that is not a truth value. -/
def salience? : Value → Option Salience
  | .int n => some ⟨n, none⟩
  | .member m => match m.payload with
    | .integer n => some ⟨n, some m⟩
    | _ => none
  | _ => none

/-- The mode asked for. Without one, `once` decides; with one, `once` must not contradict it. -/
def checkMode (name : Name) (once mode : Value) : Except DefinitionError Mode :=
  match mode with
  | .none => .ok (if once.truthy then .once else .perFact)
  | _ => match Mode.ofValue? mode with
    | none => .error (.mode name mode)
    | some m => if once.truthy ∧ m = .perFact then .error (.onceWithPerFact name) else .ok m

/-- A true `once` leaves no other mode than `once`. -/
theorem checkMode_once {name : Name} {once mode : Value} {m : Mode}
    (h : checkMode name once mode = .ok m) : (once.truthy || m == .once) = (m == .once) := by
  cases m with
  | once => simp
  | perFact =>
    unfold checkMode at h
    split at h
    · cases hb : once.truthy <;> simp_all
    · split at h
      · simp at h
      · split at h <;> simp_all

/-- The rule with these parts, all checked. -/
def make (name : Value) (patterns : List (Supplied Pattern)) (action : Supplied Action)
    (salience once mode throttle : Value) : Except DefinitionError Rule :=
  match name.name? with
  | none => .error .ruleName
  | some n =>
    if hn : n.text = "" then .error .ruleName
    else match checkPatterns patterns, action, salience? salience with
      | some [], _, _ => .error (.noPatterns n)
      | none, _, _ => .error (.patternType n)
      | some _, .other _, _ => .error (.actionNotCallable n)
      | some _, .fit _, none => .error (.salienceType n)
      | some (p :: ps), .fit act, some s => match hm : checkMode n once mode with
        | .error e => .error e
        | .ok m => .ok ⟨n, p :: ps, act, s, once.truthy || m == .once, m, throttle, hn,
            List.cons_ne_nil p ps, checkMode_once hm⟩

/-- The bindings under which the rule's patterns match. Mirrors `match_rule`. -/
def bindings (r : Rule) (facts : List Value) : List Binding := Pattern.join r.patterns facts

def activationsUnder (r : Rule) (bs : List Binding) : List Activation :=
  bs.map fun b => Activation.make r.name b r.salience r.once

def activations (r : Rule) (facts : List Value) : List Activation :=
  r.activationsUnder (r.bindings facts)

/-- Runs the rule's action and reads its effect list. The error of a failed action shows why it
failed. Mirrors `execute_action`. -/
def run (r : Rule) (c : ActionContext) : Except Error (List Item) :=
  match r.action c with
  | .error f => .error (if f.isOverlong then .fault .unwritableInteger else .action r.name f)
  | .ok result => Fault.lift result.items

end Rule

end RuleEngine
