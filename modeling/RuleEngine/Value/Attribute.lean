import RuleEngine.Value.Equality
import RuleEngine.Value.Part

/-!
# Attributes

Named parts of values that are not maps. Some hold data: the fields of records and labelled objects,
the name and content of enumeration members and the members beside them, the parts of numbers, fact
keys and variables, and what there is to know about the class of a value. All others are methods
bound to the value.
-/

namespace RuleEngine.Value

def numberPart (self zero : Value) (name : String) : Option Value :=
  if name = "real" then some self else if name = "imag" then some zero else Option.none

def integerPart (n : Int) (name : String) : Option Value :=
  if name = "numerator" then some (.int n)
  else if name = "denominator" then some (.int 1)
  else numberPart (.int n) (.int 0) name

/-- The classes that classes of the language extend beside `object`, those of the root kinds of
enumeration among them. -/
def standardAncestors : List (String × List String) :=
  [("int", []), ("str", []), (ClassInfo.rootEnumeration, []), ("ReprEnum", ["Enum"]),
    ("IntEnum", ["int", "ReprEnum", "Enum"])]

/-- The class of a value. -/
def classInfo (v : Value) : ClassInfo :=
  match v with
  | .object c fs =>
    let fields := match c.sort with
      | .record _ => fs.map (·.1)
      | .labelled _ => []
    { name := c.name, ancestors := c.ancestors, home := c.home, methods := c.methods, fields }
  | .member m =>
    { name := m.enumeration.name, ancestors := v.classes.drop 1, cases := m.enumeration.cases }
  | .key .. =>
    { name := v.className, ancestors := v.classes.drop 1, fields := ["kind", "ref", "by_content"] }
  | .var _ => { name := v.className, ancestors := v.classes.drop 1, fields := ["name"] }
  | _ => { name := v.className, ancestors := v.classes.drop 1 }

def ownClass (v : Value) : Value := .cls v.classInfo

/-- The classes that a class declared in this module extends, each as a class of its own. -/
def lineage (home : Option String) : List String → List ClassInfo
  | [] => []
  | a :: as =>
    let (home, ancestors) := match standardAncestors.lookup a with
      | some bs => (Option.none, bs ++ ["object"])
      | Option.none => (if a = "object" then Option.none else home, as)
    { name := a, ancestors, home } :: lineage home as

/-- The classes that a class names as the ones it extends: all of them where an enumeration is of
two sorts at once, else the nearest. -/
def bases (c : ClassInfo) : List ClassInfo :=
  let all := lineage c.home c.ancestors
  match c.ancestors with
  | ["str", "Enum", "object"] => all.take 2
  | ["int", "ReprEnum", "Enum", "object"] => all.take 2
  | _ => all.take 1

/-- What an enumeration member stands for, as a plain value. -/
def memberContent (m : Member) : Value :=
  match m.payload with
  | .plain n | .integer n => .int n
  | .text s => .text s

/-- The class of what the members of an enumeration stand for, and whether they are made from it. -/
def contentClass (e : Enumeration) : String × Bool :=
  match e.cases with
  | (_, .text _) :: _ => ("str", true)
  | (_, .integer _) :: _ => ("int", true)
  | _ => ("object", false)

/-- What an enumeration and its members tell about it: the members, and tables of them. -/
def enumerationPart (e : Enumeration) (name : String) : Option Value :=
  match e.member? name, name with
  | some m, _ => some (.member m)
  | Option.none, "_member_names_" => some (.list (e.cases.map fun c => .text c.1))
  | Option.none, "_member_map_" => some (.map (e.members.map fun m => (.text m.name, .member m)))
  | Option.none, "_value2member_map_" =>
    some (.map (e.members.map fun m => (memberContent m, .member m)))
  | Option.none, "_value_repr_" => if (contentClass e).2 then Option.none else some .none
  | Option.none, "_unhashable_values_" => some (.list [])
  | Option.none, "_use_args_" => some (.bool (contentClass e).2)
  | Option.none, "_member_type_" =>
    let sort := (contentClass e).1
    some (.cls { name := sort, ancestors := if sort = "object" then [] else ["object"] })
  | Option.none, _ => Option.none

def memberPart (m : Member) (name : String) : Option Value :=
  if name = "name" || name = "_name_" then some (.text m.name)
  else if name = "value" || name = "_value_" then some (memberContent m)
  else if name = "__objclass__" then some (ownClass (.member m))
  else if name = "_sort_order_" then some (.int (m.enumeration.members.idxOf m))
  else (enumerationPart m.enumeration name).or <| match m.payload with
    | .integer n => integerPart n name
    | _ => Option.none

/-- What the class of an enumeration tells beside what its members tell as well. -/
def enumerationClassPart (e : Enumeration) (name : String) : Option Value :=
  match name with
  | "__members__" => enumerationPart e "_member_map_"
  | "__annotations__" => some (.map [])
  | "__doc__" => some .none
  | _ => enumerationPart e name

/-- What a class that is no enumeration tells. -/
def plainClassPart (c : ClassInfo) (name : String) : Option Value :=
  match name with
  | "__module__" => some (.text (c.home.getD "builtins"))
  | "__match_args__" => if c.fields.isEmpty then Option.none
      else some (.tuple (c.fields.map .text))
  | "__annotations__" => if c.home.isSome && c.fields.isEmpty then some (.map []) else Option.none
  | "__doc__" => if c.name = "NoneType" || (c.home.isSome && c.fields.isEmpty) then some .none
      else Option.none
  | _ => Option.none

def classPart (c : ClassInfo) (name : String) : Option Value :=
  match name with
  | "__name__" | "__qualname__" => some (.text c.name)
  | "__mro__" => some (.tuple (.cls c :: (lineage c.home c.ancestors).map .cls))
  | "__bases__" => some (.tuple ((bases c).map .cls))
  | "__base__" => some ((bases c).head?.elim .none .cls)
  | _ => if c.isEnumeration then enumerationClassPart c.enumeration name
      else plainClassPart c name

/-- The data a value holds under a name. -/
def content? (v : Value) (name : String) : Option Value :=
  match v with
  | .object _ fs => fs.lookup name
  | .key k r b => [("kind", k), ("ref", r), ("by_content", b)].lookup name
  | .var n => if name = "name" then some n.value else Option.none
  | .bool b => integerPart (if b then 1 else 0) name
  | .int n => integerPart n name
  | .float _ => numberPart v (.float (Double.ofOrdinal false 0)) name
  | .member m => memberPart m name
  | .method owner n => [("__name__", .text n), ("__self__", owner),
      ("__qualname__", .text (owner.className ++ "." ++ n))].lookup name
  | .cls c => classPart c name
  | _ => Option.none

/-- The fields a value keeps by name, if it keeps some. -/
def state? : Value → Option (List (Value × Value))
  | .object _ fs => some (fs.map fun f => (.text f.1, f.2))
  | .key k r b => some [(.text "kind", k), (.text "ref", r), (.text "by_content", b)]
  | .var n => some [(.text "name", n.value)]
  | .any => some []
  | .member m => some [(.text "_value_", memberContent m), (.text "_name_", .text m.name),
      (.text "__objclass__", ownClass (.member m)),
      (.text "_sort_order_", .int (m.enumeration.members.idxOf m))]
  | _ => Option.none

/-- Whether the instances of the value's class have no hash, whatever they hold. -/
def isOfUnhashableClass : Value → Bool
  | .buffer _ | .list _ | .set _ | .map _ => true
  | .object c _ => c.sort == .record false || c.sort == .labelled false
  | _ => false

/-- Whether nothing is written about the value's class. -/
def isOfUndocumentedClass : Value → Bool
  | .none | .member _ | .any => true
  | .object c _ => match c.sort with
    | .record _ => false
    | .labelled _ => true
  | _ => false

/-- What a value tells about its class and its state. -/
def description? (v : Value) (name : String) : Option Value :=
  match name, v.state? with
  | "__class__", _ => some v.ownClass
  | "__dict__", some fs => some (.map fs)
  | "__weakref__", some _ => some .none
  | "__match_args__", some fs => some (.tuple (fs.map (·.1)))
  | "__hash__", _ => if v.isOfUnhashableClass then some .none else Option.none
  | "__module__", _ => match v with
    | .object c _ => some (.text c.home)
    | _ => Option.none
  | "__doc__", _ => if v.isOfUndocumentedClass then some .none else Option.none
  | _, _ => Option.none

/-- The attributes that reading never fails on: data, descriptions and methods. -/
def attribute? (v : Value) (name : String) : Option Value :=
  (v.content? name).or <|
    if v.parts.contains name then some ((v.description? name).getD (.method v name))
    else Option.none

/-- The attribute of a value: nothing if it has none of that name, a fault if reading it fails. -/
def attributeOf (v : Value) (name : String) : Except Fault (Option Value) :=
  match v with
  | .object c _ =>
    if c.faulty.contains name then .error (.faultyAttribute c.name name)
    else .ok (v.attribute? name)
  | _ => .ok (v.attribute? name)

end RuleEngine.Value
