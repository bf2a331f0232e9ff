import RuleEngine.Fact.Key
import RuleEngine.Value.Container
import RuleEngine.Pattern.Basic

/-!
# Field terms

A declared pattern selects facts by kind and describes their fields by terms. A term is a value: a
variable takes the field's value or must equal the value it has, the wildcard accepts any value, a
map describes the fields of the field, and anything else must equal the field. A missing field is no
match. The whole fact may be bound to a variable too.
-/

namespace RuleEngine

/-- Which facts a pattern selects: all, those of a kind, or the instances of some classes. -/
inductive Kind where
  | anything
  | named (kind : Name)
  | classes (names : List String)
  deriving DecidableEq, Repr

namespace Kind

/-- The kind handed in, checked. A list of classes must not be empty. Mirrors `_check_kind`. -/
def check : Supplied Kind → Except DefinitionError Kind
  | .fit (.classes []) => .error (.kind (.tuple []))
  | .fit k => .ok k
  | .other .none => .ok .anything
  | .other v => match v.name? with
    | some n => .ok (.named n)
    | none => .error (.kind v)

/-- Whether the kind selects the fact. A kind that the fact states is compared as it is written.
Mirrors `_kind_matches`. -/
def selects (k : Kind) (fact : Value) : Except Fault Bool :=
  match k with
  | .anything => .ok true
  | .named n => do
    ((Fact.statedKind? fact).getD .none).checkText
    return Fact.kind fact == n.text
  | .classes cs => .ok (cs.any fact.belongsTo)

end Kind

namespace Term

mutual

/-- The variables of a term, in the order of their places. -/
def variableNames : Value → List Name
  | .var n => [n]
  | .map es => variablesOf es
  | _ => []
termination_by structural t => t

/-- mirrors `pattern_variables` -/
def variablesOf : List (Value × Value) → List Name
  | [] => []
  | (_, t) :: es => variableNames t ++ variablesOf es
termination_by structural es => es

end

/-- The name of a variable or a field: a text that is not empty. -/
def name? (v : Value) : Option Name := v.name?.filter fun n => n.text != ""

def makeVariable (v : Value) : Except DefinitionError Value :=
  match name? v with
  | some n => .ok (.var n)
  | none => .error .variableName

mutual

/-- Whether the fields a term describes are named by texts that are not empty. -/
def wellNamed : Value → Bool
  | .map es => allWellNamed es
  | _ => true
termination_by structural t => t

/-- Whether fields, and the fields of their terms, are named by texts that are not empty. Mirrors
`_check_terms`. -/
def allWellNamed : List (Value × Value) → Bool
  | [] => true
  | (k, t) :: es => (name? k).isSome && wellNamed t && allWellNamed es
termination_by structural es => es

end

/-- The field of a value: an entry of a map, else an attribute. Mirrors `_field`. -/
def field (v k : Value) : Except Fault (Option Value) :=
  match v with
  | .map es => .ok (Assoc.lookup k es)
  | _ => v.attributeOf (k.text?.getD "")

/-- Binds a variable, or compares it with the value it has. -/
def bindVariable (n : Name) (v : Value) (b : Binding) : Option Binding :=
  match Assoc.lookup n.value b with
  | some w => if w == v then some b else none
  | none => some (b ++ [(n.value, v)])

mutual

/-- Matches a term with a value, extending the binding. Mirrors `_match_term`. -/
def satisfy : Value → Value → Binding → Except Fault (Option Binding)
  | .var n, v, b => .ok (bindVariable n v b)
  | .any, _, b => .ok (some b)
  | .map es, v, b => satisfyFields es v b
  | t, v, b => .ok (if t == v then some b else none)
termination_by structural t => t

/-- Matches field terms with the fields of a value, in order up to the first mismatch. Mirrors
`_match_fields`. -/
def satisfyFields : List (Value × Value) → Value → Binding → Except Fault (Option Binding)
  | [], _, b => .ok (some b)
  | (k, t) :: es, v, b => do
    match ← field v k with
    | none => return none
    | some w => match ← satisfy t w b with
      | none => return none
      | some b' => satisfyFields es v b'
termination_by structural es => es

end

end Term

namespace Pattern

/-- Binds the whole fact to a variable, unless the variable has an unequal value. -/
def bindFact (bind : Option Name) (fact : Value) (b : Binding) : Option Binding :=
  match bind with
  | none => some b
  | some n => match Assoc.lookup n.value b with
    | some v => if v == fact then some (Assoc.insert n.value fact b) else none
    | none => some (Assoc.insert n.value fact b)

/-- The binding under which a fact has the kind and satisfies the terms. -/
def select (kind : Kind) (terms : List (Value × Value)) (bind : Option Name) (fact : Value) :
    Except Fault (Option Binding) := do
  if ← kind.selects fact then
    match ← Term.satisfyFields terms fact [] with
    | none => return none
    | some b => return bindFact bind fact b
  else return none

/-- The matcher of a declared pattern. Mirrors `_build_matcher`. -/
def matcherOf (kind : Kind) (terms : List (Value × Value)) (bind : Option Name) : Matcher :=
  fun fact => do
    match ← select kind terms bind fact with
    | some b => return .map b
    | none => return .none

/-- The variable that receives the whole fact, if one is given. -/
def checkBind (v : Value) : Except DefinitionError (Option Name) :=
  match v with
  | .none => .ok none
  | _ => match Term.name? v with
    | some n => .ok (some n)
    | none => .error .bindName

/-- Words that field terms given by name may not use. -/
def reservedNames : List String := ["kind", "fields", "where", "bind"]

/-- Field terms given by name: names must be texts and not reserved. -/
def checkKeywords (terms : List (Value × Value)) : Except Fault Unit :=
  terms.forM fun t => match t.1.text? with
    | some s => if reservedNames.contains s then .error (.badKeyword s) else .ok ()
    | none => .error (.badKeyword t.1.className)

/-- A pattern declared by kind, field terms, further terms by name, guard and bind variable. Mirrors
`pattern`. -/
def declare (kind : Supplied Kind) (fields : Value) (keywords : List (Value × Value))
    (guard : Supplied Guard) (bind : Value) : Except Error Pattern := do
  Fault.lift (checkKeywords keywords)
  let kind ← (Kind.check kind).mapError .definition
  let bind ← (checkBind bind).mapError .definition
  let fields ← if fields.truthy then Fault.lift fields.toEntries else pure []
  let terms := Assoc.update fields keywords
  if Term.allWellNamed terms then
    (make (.fit (matcherOf kind terms bind)) guard).mapError .definition
  else malformed .fieldName

end Pattern

end RuleEngine
