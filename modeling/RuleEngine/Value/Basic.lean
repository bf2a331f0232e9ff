import RuleEngine.Double.Basic

/-!
# Values

The values that facts, bindings and effects are made of: scalars, enumeration members, sequences,
sets, maps with arbitrary keys, instances of record classes, fact keys and the two terms that only
mean something inside a pattern (variables and the wildcard). Classes, and methods bound to the
value they belong to, are values too: they are reached as attributes of others.

A map is a list of entries in insertion order and a set a list of members; the functions that build
them keep keys and members pairwise different (`Value.Equality`). Equality of terms is sameness of
representation; the equality that rules see is `Value.eqv`.
-/

namespace RuleEngine

/-- What an enumeration member stands for. A `text` member equals and hashes like its text, an
`integer` member like its number, a `plain` one only like itself. -/
inductive Payload where
  | plain (n : Int)
  | text (s : String)
  | integer (n : Int)
  deriving DecidableEq, Repr, Inhabited

def Payload.text? : Payload → Option String
  | text s => some s
  | _ => none

/-- An enumeration: its name, and what its members stand for under their names, in order. -/
structure Enumeration where
  name : String
  cases : List (String × Payload)
  deriving DecidableEq, Repr, Inhabited

/-- A member of an enumeration. -/
structure Member where
  enumeration : Enumeration
  name : String
  payload : Payload
  deriving DecidableEq, Repr, Inhabited

namespace Enumeration

def members (e : Enumeration) : List Member := e.cases.map fun c => ⟨e, c.1, c.2⟩

def member? (e : Enumeration) (name : String) : Option Member :=
  (e.cases.lookup name).map fun p => ⟨e, name, p⟩

end Enumeration

/-- A text, together with the enumeration member it was given as, if any. -/
structure Name where
  text : String
  member : Option Member
  deriving DecidableEq, Repr, Inhabited

def Name.ofText (s : String) : Name := ⟨s, none⟩

/-- How the instances of a class behave: records compare by their fields and are hashable when
frozen and made of hashable fields; labelled objects say themselves whether they are hashable. -/
inductive ObjectSort where
  | record (frozen : Bool)
  | labelled (hashable : Bool)
  deriving DecidableEq, Repr, Inhabited

/-- A class of objects, declared in a module of the host. Reading one of its `methods` gives a
callable, reading one of its `faulty` attributes fails. -/
structure ObjectClass where
  name : String
  home : String
  ancestors : List String
  sort : ObjectSort
  methods : List String
  faulty : List String
  deriving DecidableEq, Repr, Inhabited

/-- What makes the class the very one it is: a module of the host declares one class of a name. -/
def ObjectClass.identity (c : ObjectClass) : String × String := (c.home, c.name)

/-- A class that is itself a value: its name, the classes it extends, the module of the host that
declares it, if one does, the members it has as an enumeration, and the methods and fields that it
declares for its instances. -/
structure ClassInfo where
  name : String
  ancestors : List String
  home : Option String := none
  cases : List (String × Payload) := []
  methods : List String := []
  fields : List String := []
  deriving DecidableEq, Repr, Inhabited

namespace ClassInfo

/-- The root of all enumerations. -/
def rootEnumeration : String := "Enum"

/-- Whether the class is an enumeration, with members or without. -/
def isEnumeration (c : ClassInfo) : Bool :=
  c.name == rootEnumeration || c.ancestors.contains rootEnumeration

def enumeration (c : ClassInfo) : Enumeration := ⟨c.name, c.cases⟩

def shownName (c : ClassInfo) : String := (c.home.elim "" (· ++ ".")) ++ c.name

end ClassInfo

inductive Value where
  | none
  | bool (b : Bool)
  | int (n : Int)
  | float (x : Double)
  | text (s : String)
  | bytes (bs : List UInt8)
  | buffer (bs : List UInt8)
  | member (m : Member)
  | list (items : List Value)
  | tuple (items : List Value)
  | set (items : List Value)
  | frozenSet (items : List Value)
  | map (entries : List (Value × Value))
  | object (cls : ObjectClass) (fields : List (String × Value))
  | key (kind ref byContent : Value)
  | var (name : Name)
  | any
  | method (owner : Value) (name : String)
  | cls (info : ClassInfo)
  deriving Repr, Inhabited

namespace Name

/-- The value the name was given as. -/
def value (n : Name) : Value :=
  match n.member with
  | some m => .member m
  | none => .text n.text

end Name

namespace Value

/-- The parts of a value that are functions written in its class, or in one that this extends. Their
shown form shows the value; that of all other methods has an address in its place. -/
def functions : Value → List String
  | .object c _ => c.methods ++ ["__eq__", "__init__", "__repr__"] ++ (match c.sort with
    | .record frozen => if frozen then ["__delattr__", "__hash__", "__setattr__"] else []
    | .labelled hashable => if hashable then ["__hash__"] else [])
  | .key .. =>
    ["__delattr__", "__eq__", "__hash__", "__init__", "__repr__", "__setattr__", "__str__"]
  | .var _ => ["__delattr__", "__eq__", "__hash__", "__init__", "__repr__", "__setattr__"]
  | .any => ["__repr__"]
  | .member m => ["__dir__", "__init__", "__new__", "__reduce_ex__", "__repr__",
      "_generate_next_value_"] ++ (match m.payload with
    | .plain _ => ["__format__", "__hash__", "__str__"]
    | .text _ => ["__format__", "__str__"]
    | .integer _ => [])
  | _ => []

/-- Whether a built-in part of a value with an operator's name is a method all the same. -/
def isBuiltIn (owner : Value) (name : String) : Bool :=
  ["__bytes__", "__ceil__", "__class_getitem__", "__dir__", "__floor__", "__format__",
    "__getformat__", "__getnewargs__", "__getstate__", "__init_subclass__", "__new__",
    "__reduce__", "__reduce_ex__", "__reversed__", "__round__", "__sizeof__", "__subclasshook__",
    "__trunc__"].contains name ||
  (match owner with
    | .list _ => name == "__getitem__"
    | .set _ | .frozenSet _ => name == "__contains__"
    | .map _ => name == "__getitem__" || name == "__contains__"
    | _ => false)

/-- The class of a method: functions bound to a value differ from built-in methods, of which the
operators form a class of their own. -/
def methodClass (owner : Value) (name : String) : String :=
  if owner.functions.contains name then "method"
  else if "__".toList.isPrefixOf name.toList && !owner.isBuiltIn name then "method-wrapper"
  else "builtin_function_or_method"

/-- The classes a value belongs to, its own first. -/
def classes : Value → List String
  | .none => ["NoneType", "object"]
  | .bool _ => ["bool", "int", "object"]
  | .int _ => ["int", "object"]
  | .float _ => ["float", "object"]
  | .text _ => ["str", "object"]
  | .bytes _ => ["bytes", "object"]
  | .buffer _ => ["bytearray", "object"]
  | .member m => match m.payload with
    | .plain _ => [m.enumeration.name, "Enum", "object"]
    | .text _ => [m.enumeration.name, "str", "Enum", "object"]
    | .integer _ => [m.enumeration.name, "IntEnum", "int", "ReprEnum", "Enum", "object"]
  | .list _ => ["list", "object"]
  | .tuple _ => ["tuple", "object"]
  | .set _ => ["set", "object"]
  | .frozenSet _ => ["frozenset", "object"]
  | .map _ => ["dict", "object"]
  | .object c _ => c.name :: c.ancestors
  | .key .. => ["FactKey", "object"]
  | .var _ => ["Var", "object"]
  | .any => ["_AnyValue", "object"]
  | .method owner name => [methodClass owner name, "object"]
  | .cls c => if c.isEnumeration then ["EnumType", "type", "object"] else ["type", "object"]

def className (v : Value) : String := v.classes.headD "object"

/-- Whether the value is an instance of the class or of one that extends it. -/
def belongsTo (v : Value) (cls : String) : Bool := v.classes.contains cls

def text? : Value → Option String
  | .text s => some s
  | .member ⟨_, _, .text s⟩ => some s
  | _ => Option.none

/-- The name a value can serve as. -/
def name? : Value → Option Name
  | .text s => some ⟨s, Option.none⟩
  | .member m => match m.payload with
    | .text s => some ⟨s, some m⟩
    | _ => Option.none
  | _ => Option.none

/-- The exact number a value is equal to. -/
def number? : Value → Option Number
  | .bool b => some (.whole (if b then 1 else 0))
  | .int n => some (.whole n)
  | .float x => some x.number
  | .member ⟨_, _, .integer n⟩ => some (.whole n)
  | _ => Option.none

def octets? : Value → Option (List UInt8)
  | .bytes bs | .buffer bs => some bs
  | _ => Option.none

/-- The members of a set of either sort. -/
def members? : Value → Option (List Value)
  | .set xs | .frozenSet xs => some xs
  | _ => Option.none

def entries? : Value → Option (List (Value × Value))
  | .map es => some es
  | _ => Option.none

def truthy : Value → Bool
  | .none => false
  | .bool b => b
  | .int n => n != 0
  | .float x => !x.isZero
  | .text s => s != ""
  | .bytes bs | .buffer bs => !bs.isEmpty
  | .member m => match m.payload with
    | .plain _ => true
    | .text s => s != ""
    | .integer n => n != 0
  | .list xs | .tuple xs | .set xs | .frozenSet xs => !xs.isEmpty
  | .map es => !es.isEmpty
  | .object .. | .key .. | .var _ | .any | .method .. | .cls .. => true

def isCallable : Value → Bool
  | .method .. | .cls .. => true
  | _ => false

end Value

end RuleEngine
