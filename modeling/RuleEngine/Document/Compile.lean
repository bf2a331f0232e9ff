import RuleEngine.Document.Spec
import RuleEngine.Pattern.Term
import RuleEngine.Template

/-!
# Compiling documents

A declared rule becomes a rule. Field terms share the notation of templates: `$name` binds a
variable, `_` accepts any value, a map describes a field's fields and anything else is a literal.
Conditions may only ask for variables bound by their own pattern or an earlier one, effects for
variables bound by any pattern.
-/

namespace RuleEngine

namespace Document

mutual

/-- The term a piece of field notation stands for. -/
def term : Value → Value
  | .map es => .map (terms es)
  | v =>
    if v == .text "_" then .any
    else match Reference.name? v with
      | some n => .var (.ofText n)
      | none => Reference.unescape v
termination_by structural v => v

/-- mirrors `_compile_terms` -/
def terms : List (Value × Value) → List (Value × Value)
  | [] => []
  | (k, v) :: es => (k, term v) :: terms es
termination_by structural es => es

end

mutual

/-- The value with records seen as maps of their fields. A map has no hash, so records cannot be
seen this way among the members of a set or in the keys of a map. -/
def exposed : Value → Except Fault Value
  | .list xs => do return .list (← exposedAll xs)
  | .tuple xs => do return .tuple (← exposedAll xs)
  | .set xs => do Value.setOf (← exposedAll xs)
  | .frozenSet xs => do Value.frozenSetOf (← exposedAll xs)
  | .map es => do Value.mapOf (← exposedEntries es)
  | .object c fs => match c.sort with
    | .record _ => do return .map (← exposedFields fs)
    | .labelled _ => .ok (.object c fs)
  | .key k r b => do
    let kind ← exposed k
    let ref ← exposed r
    let byContent ← exposed b
    return .map [(.text "kind", kind), (.text "ref", ref), (.text "by_content", byContent)]
  | .var n => .ok (.map [(.text "name", n.value)])
  | v => .ok v
termination_by structural v => v

def exposedAll : List Value → Except Fault (List Value)
  | [] => .ok []
  | x :: xs => do
    let y ← exposed x
    let ys ← exposedAll xs
    return y :: ys
termination_by structural xs => xs

def exposedEntries : List (Value × Value) → Except Fault (List (Value × Value))
  | [] => .ok []
  | (k, v) :: es => do
    let key ← exposed k
    let w ← exposed v
    let fs ← exposedEntries es
    return (key, w) :: fs
termination_by structural es => es

def exposedFields : List (String × Value) → Except Fault (List (Value × Value))
  | [] => .ok []
  | (n, v) :: fs => do
    let w ← exposed v
    let es ← exposedFields fs
    return (.text n, w) :: es
termination_by structural fs => fs

end

/-- Names that are asked for and not bound, sorted and without repetition. -/
def unbound (asked bound : List String) : List String :=
  Text.sort ((asked.filter fun n => !bound.contains n).eraseDups)

end Document

namespace EffectSpec

def template : EffectSpec → Value
  | assert v | retract v | upsert v | emit _ v | set _ v => v
  | log _ message => .text message

def variableNames (e : EffectSpec) : Except Fault (List String) :=
  (Document.exposed e.template).map Template.variableNames

/-- The effect under a binding. The message of a log effect is written as a text. Mirrors
`_render_effect`. -/
def render (b : Binding) (e : EffectSpec) : Except Fault Effect := do
  let v ← Template.render b e.template
  match e with
  | assert _ => return .assert v
  | retract _ => return .retract v
  | upsert _ => return .upsert v
  | emit name _ => return .emit (.text name) v
  | log level _ => do
    v.checkText
    return .log (.text level) (.text v.display)
  | set key _ => return .set (.text key) v

end EffectSpec

namespace PatternSpec

def terms (p : PatternSpec) : List (Value × Value) := Document.terms p.fields

def variableNames (p : PatternSpec) : List String :=
  (Term.variablesOf p.terms).map Name.text ++ p.bind.toList

def readConditions (p : PatternSpec) : Except Error (List Condition) :=
  Condition.ofValues (p.conditions.map .list)

/-- The pattern of rule `rule` at a position, with `bound` the variables bound before it. -/
def compile (rule : String) (position : Nat) (bound : List String) (p : PatternSpec) :
    Except Error Pattern := do
  let cs ← p.readConditions
  let missing := Document.unbound (cs.flatMap Condition.variableNames) (bound ++ p.variableNames)
  if missing.isEmpty then
    Pattern.declare (.other (p.kind.elim .none .text)) (.map p.terms) []
      ((Condition.guard? cs).elim (.other .none) .fit) (p.bind.elim .none .text)
  else malformed (.unboundInConditions rule position missing)

def compileFrom (rule : String) : Nat → List String → List PatternSpec → Except Error (List Pattern)
  | _, _, [] => .ok []
  | i, bound, p :: ps => do
    let q ← p.compile rule i bound
    let qs ← compileFrom rule (i + 1) (bound ++ p.variableNames) ps
    return q :: qs

end PatternSpec

namespace RuleSpec

def variableNames (r : RuleSpec) : List String := r.patterns.flatMap PatternSpec.variableNames

/-- The action that renders the declared effects in order. Mirrors `_build_action`. -/
def action (effects : List EffectSpec) : Action := fun c => do
  let es ← effects.mapM (EffectSpec.render c.binding)
  return .context (.ok (c.effects ++ es.map .effect))

/-- The rule that is declared. Mirrors `compile_rule_spec`. -/
def compile (r : RuleSpec) : Except Error Rule := do
  let patterns ← PatternSpec.compileFrom r.name 0 [] r.patterns
  let asked ← Fault.lift (r.effects.mapM EffectSpec.variableNames)
  let missing := Document.unbound asked.flatten r.variableNames
  if missing.isEmpty then
    let mode := r.mode.elim .none fun m => .text (if m = .once then "once" else "per_fact")
    (Rule.make (.text r.name) (patterns.map .fit) (.fit (action r.effects)) (.int r.salience)
      (.bool r.once) mode r.throttle).mapError .definition
  else malformed (.unboundInEffects r.name missing)

end RuleSpec

namespace Document

/-- The rules of a document. Mirrors `compile_rulebook`. -/
def compile (d : Document) : Except Error (List Rule) := do
  let book ← d.parse
  book.rules.mapM RuleSpec.compile

end Document

end RuleEngine
