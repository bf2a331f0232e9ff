import RuleEngine.Document.Load
import RuleEngine.Source.HostModule
import RuleEngine.Source.RuleSet

/-!
# Rule sources

Everything rules can come from: rules, functions that declare one, rule sets, modules of functions,
documents and files that hold one, and lists of sources at any depth. A source without rules is a
configuration error.
-/

namespace RuleEngine

/-- Something rules can come from. -/
inductive Source where
  | rule (r : Rule)
  | function (f : HostFunction)
  | ruleSet (s : RuleSet) (instantiated : Bool)
  | module (m : HostModule)
  | class (info : ClassInfo)
  | document (d : Document)
  | path (v : Value)
  | file (path : String)
  | list (items : List Source)
  | tuple (items : List Source)
  | value (v : Value)

instance : Inhabited Source := ⟨.value .none⟩

def inspectText? (s : Option String) : String := (s.elim Value.none .text).inspect

namespace PatternSpec

def inspect (p : PatternSpec) : String :=
  let conditions := (Value.list (p.conditions.map .list)).inspect
  s!"PatternSpec(kind={inspectText? p.kind}, field_terms={(Value.map p.fields).inspect}, "
    ++ s!"where={conditions}, bind={inspectText? p.bind})"

end PatternSpec

namespace EffectSpec

def className : EffectSpec → String
  | assert _ => "AssertSpec"
  | retract _ => "RetractSpec"
  | upsert _ => "UpsertSpec"
  | emit .. => "EmitSpec"
  | log .. => "LogSpec"
  | set .. => "SetSpec"

def inspect (e : EffectSpec) : String :=
  e.className ++ "(" ++ Value.commas (e.fields.map fun f => f.1 ++ "=" ++ f.2.inspect) ++ ")"

end EffectSpec

namespace RuleSpec

def inspect (r : RuleSpec) : String :=
  let patterns := Value.commas (r.patterns.map PatternSpec.inspect)
  let effects := Value.commas (r.effects.map EffectSpec.inspect)
  let mode := inspectText? (r.mode.bind fun m => m.member.payload.text?)
  s!"RuleSpec(name={Text.quote r.name}, when=[{patterns}], then=[{effects}], "
    ++ s!"salience={r.salience}, once={(Value.bool r.once).inspect}, mode={mode}, "
    ++ s!"throttle={r.throttle.inspect})"

end RuleSpec

namespace Document

def className : Document → String
  | data v => v.className
  | book _ => "RuleBookSpec"
  | rule _ => "RuleSpec"
  | pattern _ => "PatternSpec"
  | list _ => "list"
  | tuple _ => "tuple"
  | record _ => "dict"

mutual

def inspect : Document → String
  | data v => v.inspect
  | book b => "RuleBookSpec(rules=[" ++ Value.commas (b.rules.map RuleSpec.inspect) ++ "])"
  | rule r => r.inspect
  | pattern p => p.inspect
  | list ds => "[" ++ Value.commas (inspectAll ds) ++ "]"
  | tuple ds => "(" ++ Value.commas (inspectAll ds) ++ (if ds.length = 1 then ",)" else ")")
  | record ds => "\x7b'rules': [" ++ Value.commas (inspectAll ds) ++ "]\x7d"
termination_by structural d => d

def inspectAll : List Document → List String
  | [] => []
  | d :: ds => inspect d :: inspectAll ds
termination_by structural ds => ds

end

end Document

namespace Source

mutual

def ofValue : Value → Source
  | .map es => .document (.data (.map es))
  | .list xs => .list (ofValues xs)
  | .tuple xs => .tuple (ofValues xs)
  | v => if v.text?.isSome then .path v else .value v
termination_by structural v => v

def ofValues : List Value → List Source
  | [] => []
  | x :: xs => ofValue x :: ofValues xs
termination_by structural xs => xs

end

/-- The source that an entry of options is. A function of the host that takes events declares no
rule. -/
def ofSupplied : Supplied Observer → Source
  | .other v => ofValue v
  | .fit _ => .function ⟨none, "", none, fun _ => .error (.raised "TypeError" [])⟩

mutual

/-- The source as it is shown. What stands for a place in memory is left out. Fails if an instance
of a rule set replaces how it is shown. -/
def inspect : Source → Except Fault String
  | .rule r =>
    .ok ("Rule(name=" ++ r.name.value.inspect ++ ", patterns=(Pattern(matcher=<function at 0x>)))")
  | .function f => .ok f.inspect
  | .ruleSet s instantiated => if instantiated then s.inspect else .ok s.info.inspect
  | .module m => m.inspect
  | .class c => .ok c.inspect
  | .document d => .ok d.inspect
  | .path v => .ok v.inspect
  | .file p => .ok ("PosixPath(" ++ Text.quote (Document.normalPath p) ++ ")")
  | .list xs => do return "[" ++ Value.commas (← inspectAll xs) ++ "]"
  | .tuple xs => do
    return "(" ++ Value.commas (← inspectAll xs) ++ (if xs.length = 1 then ",)" else ")")
  | .value v => .ok v.inspect
termination_by structural s => s

def inspectAll : List Source → Except Fault (List String)
  | [] => .ok []
  | x :: xs => do
    let shown ← inspect x
    return shown :: (← inspectAll xs)
termination_by structural xs => xs

end

def className : Source → String
  | .rule _ => "Rule"
  | .function f => if f.name.isSome then "function" else "callable"
  | .ruleSet s _ => s.name
  | .module _ => "module"
  | .class _ => "type"
  | .document d => d.className
  | .path v => v.className
  | .file _ => "PosixPath"
  | .list _ => "list"
  | .tuple _ => "tuple"
  | .value v => v.className

/-- How errors name a source: a module and a class by name, all else by class and shown form, of
which the first 200 characters count. Mirrors `_describe`. -/
def describe (s : Source) : Except Fault String :=
  match s with
  | .module m => .ok ("module " ++ m.shownName)
  | .class c => .ok ("class " ++ c.name)
  | .ruleSet r false => .ok ("class " ++ r.name)
  | _ => do return String.ofList ((s.className ++ " " ++ (← s.inspect)).toList.take 200)

/-- Refuses a source that rules cannot come from. -/
def refuse (s : Source) : Except Error (List Rule) := do
  misconfigured (.unsupportedSource (← Fault.lift s.describe))

/-- The rules found, of which there must be at least one. -/
def nonempty (s : Source) (found : Except Error (List Rule)) : Except Error (List Rule) := do
  let rs ← found
  if rs.isEmpty then misconfigured (.noRules (← Fault.lift s.describe)) else return rs

mutual

/-- The rules of a source, possibly none. Mirrors `_compile`. -/
def collect (files : Files) : Source → Except Error (List Rule)
  | .rule r => .ok [r]
  | .ruleSet s instantiated => do
    if instantiated then s.rules
    else
      Fault.lift s.instantiate
      s.rules
  | .module m => (m.declaring.mapM HostFunction.rule).mapError .definition
  | .document (.pattern p) => refuse (.document (.pattern p))
  | .document d => d.compile
  | .path v => Document.load files v.display
  | .file p => Document.load files p
  | .list xs => collectAll files xs
  | .tuple xs => collectAll files xs
  | .function f =>
    if f.declaration.isSome then (f.rule.map fun r => [r]).mapError .definition
    else refuse (.function f)
  | s => s.refuse
termination_by structural s => s

def collectAll (files : Files) : List Source → Except Error (List Rule)
  | [] => .ok []
  | x :: xs => do
    let rs ← nonempty x (collect files x)
    let rest ← collectAll files xs
    return rs ++ rest
termination_by structural xs => xs

end

/-- The rules of a source. Mirrors `compile_rules`. -/
def compile (files : Files) (s : Source) : Except Error (List Rule) := s.nonempty (s.collect files)

/-- The rules of the sources of a session. No source means no rules, and a list may be empty.
Mirrors `compile_sources`. -/
def compileAll (files : Files) (s : Source) : Except Error (List Rule) :=
  match s with
  | .value .none => .ok []
  | .list xs | .tuple xs => xs.foldlM (fun acc x => do return acc ++ (← x.compile files)) []
  | _ => s.compile files

/-- Takes a missing attribute as an answer. -/
def answered : Except Fault Unit → Except Fault Unit
  | .error e => if e.label = "AttributeError" then .ok () else .error e
  | .ok () => .ok ()

/-- Fails if asking a source whether it declares a rule does. -/
def probe : Source → Except Fault Unit
  | .ruleSet s true => answered ((s.readAs "" none).map fun _ => ())
  | .module m => match m.members.lookup "__getattr__" with
    | some (.function f) => answered f.callWithName
    | some (.plain _) => .error (.uncallable "__getattr__")
    | none => .ok ()
  | _ => .ok ()

/-- The rule a source declares as a function. Mirrors `rule_from_function`. -/
def functionRule (s : Source) : Except Error Rule :=
  match s with
  | .function f => f.rule.mapError .definition
  | _ => do
    Fault.lift s.probe
    malformed (.notDeclared (← Fault.lift s.inspect))

end Source

end RuleEngine
