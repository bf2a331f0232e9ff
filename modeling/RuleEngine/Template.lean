import RuleEngine.Binding
import RuleEngine.Reference

/-!
# Templates

A template is a value in which references stand for bound values. `Template.render` replaces them in
maps and lists, at any depth; keys of maps and everything else stay as they are. The variables a
template asks for also count those inside tuples.
-/

namespace RuleEngine.Template

mutual

/-- The template with its references replaced by what they name. Mirrors `render_template`. -/
def render (b : Binding) : Value → Except Fault Value
  | .list xs => do return .list (← renderAll b xs)
  | .map es => do return .map (← renderEntries b es)
  | v => match Reference.name? v with
    | some name => b.read name
    | none => .ok (Reference.unescape v)
termination_by structural v => v

def renderAll (b : Binding) : List Value → Except Fault (List Value)
  | [] => .ok []
  | x :: xs => do
    let y ← render b x
    let ys ← renderAll b xs
    return y :: ys
termination_by structural xs => xs

def renderEntries (b : Binding) : List (Value × Value) → Except Fault (List (Value × Value))
  | [] => .ok []
  | (k, v) :: es => do
    let w ← render b v
    let fs ← renderEntries b es
    return (k, w) :: fs
termination_by structural es => es

end

mutual

/-- The variables a template asks for, in the order of places. Mirrors `_template_variables`. -/
def variableNames : Value → List String
  | .list xs | .tuple xs => variablesAll xs
  | .map es => variablesEntries es
  | v => (Reference.name? v).toList
termination_by structural v => v

def variablesAll : List Value → List String
  | [] => []
  | x :: xs => variableNames x ++ variablesAll xs
termination_by structural xs => xs

def variablesEntries : List (Value × Value) → List String
  | [] => []
  | (_, v) :: es => variableNames v ++ variablesEntries es
termination_by structural es => es

end

end RuleEngine.Template
