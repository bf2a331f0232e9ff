import RuleEngine.Source.HostClass

/-!
# Rule sets

A rule set is a class whose methods declare rules. Each attribute that is a rule in the class or in
one it extends yields at most one rule, built from its most derived definition, in the place where
the least derived one declares it as a rule.

The rules are collected from an instance. A class may replace how instances are made, how the rules
are collected and how attributes are read. None of these replacements accepts what it is called
with but those that are called with a name, whose answers are no rules.
-/

namespace RuleEngine

/-- A rule set: its classes in resolution order, the most derived first. -/
structure RuleSet where
  classes : List HostClass

namespace RuleSet

/-- Names of functions that belong to the class and not to its instances. -/
def ownNames : List String := [HostClass.extensionHook, "__class_getitem__"]

/-- The rule set of the class at a position. -/
def ofClasses (made : List HostClass) (position : Int) : Except Fault RuleSet := do
  let i ← HostClass.place made.length position
  return ⟨((made[i]?.map (·.order)).getD []).filterMap fun j => made[j]?⟩

def info (s : RuleSet) : ClassInfo := (s.classes.head?.map HostClass.info).getD default

def name (s : RuleSet) : String := s.info.name

/-- Whether a class declares a rule by what it has under a name. -/
def declaresRule : String × Definition → Bool
  | (attr, .member (.function f)) =>
    f.declaration.isSome && !(f.name.isSome && ownNames.contains attr)
  | _ => false

/-- The attributes that some class declares as a rule, in the order in which the least derived one
does. -/
def attributes (s : RuleSet) : List String :=
  (s.classes.reverse.flatMap fun c => (c.definitions.filter declaresRule).map (·.1)).eraseDups

/-- The most derived definition of an attribute. -/
def resolve (s : RuleSet) (attr : String) : Option Definition :=
  s.classes.findSome? fun c => c.definitions.lookup attr

/-- Reads an attribute that is missing: the function for missing attributes, if there is one, is
asked for it. -/
def readMissing (s : RuleSet) (attr : String) : Except Fault Unit :=
  match s.resolve "__getattr__" with
  | some (.member (.function f)) => f.callWithName
  | some (.member (.plain _)) => .error (.uncallable "__getattr__")
  | some .slot | none => .error (.missingAttribute s.name attr)

/-- Reads an attribute of an instance whose most derived definition is known: the member of that
name, or nothing where a function answers for it. Slots are empty. -/
def readAs (s : RuleSet) (attr : String) (found : Option Definition) :
    Except Fault (Option ClassMember) :=
  match s.resolve "__getattribute__", found with
  | some (.member (.function f)), _ => match f.callWithName with
    | .ok () => .ok none
    | .error e => if e.label = "AttributeError" then do s.readMissing attr; return none
        else .error e
  | some (.member (.plain _)), _ => .error (.uncallable "__getattribute__")
  | none, some (.member m) => .ok (some m)
  | some .slot, _ | none, some .slot | none, none => do s.readMissing attr; return none

def read (s : RuleSet) (attr : String) : Except Fault (Option ClassMember) :=
  s.readAs attr (s.resolve attr)

/-- Fails if no instance can be made. A function without a name can make one when it is called with
the class, and makes something that has no rules. -/
def instantiate (s : RuleSet) : Except Fault Unit :=
  match s.resolve "__new__", s.resolve "__init__" with
  | some (.member (.function f)), _ =>
    if f.name.isSome then .error (.uncallable "__new__")
    else do
      f.callWithName
      .error (.missingAttribute s.name "rules")
  | some _, _ => .error (.uncallable "__new__")
  | none, some (.member _) => .error (.uncallable "__init__")
  | none, some .slot => .error (.missingAttribute s.name "__init__")
  | none, none => .ok ()

/-- Fails if a class replaces how the rules are collected. -/
def checkCollection (s : RuleSet) : Except Fault Unit :=
  match s.resolve "rules", s.resolve "__getattribute__" with
  | none, none => .ok ()
  | _, _ => do
    let _ ← s.read "rules"
    .error (.uncallable "rules")

/-- The rule that an attribute of an instance is, if it is one. -/
def rule? (s : RuleSet) (attr : String) : Except Error (Option Rule) := do
  match (← Fault.lift (s.read attr)).bind ClassMember.declaration? with
  | some (d, action) => match d.build action attr with
    | .ok r => return some r
    | .error e => malformed e
  | none => return none

/-- The rules of an instance. Mirrors `RuleSet.rules`. -/
def rules (s : RuleSet) : Except Error (List Rule) := do
  Fault.lift s.checkCollection
  return (← s.attributes.mapM s.rule?).filterMap id

/-- An instance as it is shown. What stands for its place in memory is left out. -/
def inspect (s : RuleSet) : Except Fault String :=
  match s.resolve "__repr__" with
  | some (.member _) => .error (.uncallable "__repr__")
  | some .slot | none => .ok ("<" ++ s.info.shownName ++ " object at 0x>")

end RuleSet

end RuleEngine
