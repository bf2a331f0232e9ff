import RuleEngine.Value.Basic

/-!
# Parts of classes

Every class gives its instances named parts: operators and methods. `Value.parts` lists those of a
value, its own class's first and then those of the classes it extends, down to the ones that any
value has.
-/

namespace RuleEngine

namespace Part

def ofAny : List String :=
  ["__class__", "__delattr__", "__dir__", "__doc__", "__eq__", "__format__", "__ge__",
   "__getattribute__", "__getstate__", "__gt__", "__hash__", "__init__", "__init_subclass__",
   "__le__", "__lt__", "__ne__", "__new__", "__reduce__", "__reduce_ex__", "__repr__",
   "__setattr__", "__sizeof__", "__str__", "__subclasshook__"]

/-- Parts of whole numbers and doubles alike. -/
def ofReals : List String :=
  ["__abs__", "__add__", "__bool__", "__ceil__", "__divmod__", "__float__", "__floor__",
   "__floordiv__", "__getnewargs__", "__int__", "__mod__", "__mul__", "__neg__", "__pos__",
   "__pow__", "__radd__", "__rdivmod__", "__rfloordiv__", "__rmod__", "__rmul__", "__round__",
   "__rpow__", "__rsub__", "__rtruediv__", "__sub__", "__truediv__", "__trunc__",
   "as_integer_ratio", "conjugate", "imag", "real"]

def ofIntegers : List String :=
  ["__and__", "__index__", "__invert__", "__lshift__", "__or__", "__rand__", "__rlshift__",
   "__ror__", "__rrshift__", "__rshift__", "__rxor__", "__xor__", "bit_count", "bit_length",
   "denominator", "from_bytes", "numerator", "to_bytes"]

def ofDoubles : List String :=
  ["__getformat__", "fromhex", "hex", "is_integer"]

/-- Parts of texts, octets, lists and tuples alike. -/
def ofSequences : List String :=
  ["__add__", "__contains__", "__getitem__", "__iter__", "__len__", "__mul__", "__rmul__", "count",
   "index"]

/-- Parts of texts and octets alike. -/
def ofStrings : List String :=
  ["__mod__", "__rmod__", "capitalize", "center", "endswith", "expandtabs", "find", "isalnum",
   "isalpha", "isascii", "isdigit", "islower", "isspace", "istitle", "isupper", "join", "ljust",
   "lower", "lstrip", "maketrans", "partition", "removeprefix", "removesuffix", "replace", "rfind",
   "rindex", "rjust", "rpartition", "rsplit", "rstrip", "split", "splitlines", "startswith",
   "strip", "swapcase", "title", "translate", "upper", "zfill"]

def ofTexts : List String :=
  ["__getnewargs__", "casefold", "encode", "format", "format_map", "isdecimal", "isidentifier",
   "isnumeric", "isprintable"]

def ofOctets : List String :=
  ["decode", "fromhex", "hex"]

/-- Parts of sequences that can be changed. -/
def ofMutables : List String :=
  ["__delitem__", "__iadd__", "__imul__", "__setitem__", "append", "clear", "copy", "extend",
   "insert", "pop", "remove", "reverse"]

def ofSets : List String :=
  ["__and__", "__class_getitem__", "__contains__", "__iter__", "__len__", "__or__", "__rand__",
   "__ror__", "__rsub__", "__rxor__", "__sub__", "__xor__", "copy", "difference", "intersection",
   "isdisjoint", "issubset", "issuperset", "symmetric_difference", "union"]

def ofMutableSets : List String :=
  ["__iand__", "__ior__", "__isub__", "__ixor__", "add", "clear", "difference_update", "discard",
   "intersection_update", "pop", "remove", "symmetric_difference_update", "update"]

/-- Parts that enumeration members have and their enumeration has not. -/
def ofMembersAlone : List String :=
  ["__objclass__", "_name_", "_sort_order_", "_value_", "name", "value"]

/-- Parts of enumeration members and of their enumeration. -/
def ofMembers : List String :=
  ["__dict__", "__module__", "__weakref__", "_generate_next_value_", "_member_map_",
   "_member_names_", "_member_type_", "_missing_", "_new_member_", "_unhashable_values_",
   "_use_args_", "_value2member_map_", "_value_repr_"]

def ofClasses : List String :=
  ["__base__", "__bases__", "__basicsize__", "__call__", "__dict__", "__dictoffset__", "__flags__",
   "__instancecheck__", "__itemsize__", "__module__", "__mro__", "__name__", "__or__",
   "__prepare__", "__qualname__", "__ror__", "__subclasscheck__", "__subclasses__",
   "__text_signature__", "__weakrefoffset__", "mro"]

def ofEnumerations : List String :=
  ["__bool__", "__contains__", "__getattr__", "__getitem__", "__iter__", "__len__", "__members__",
   "__reversed__", "_check_for_existing_members_", "_convert_", "_create_", "_find_data_repr_",
   "_find_data_type_", "_find_new_", "_get_mixins_"]

def ofMethods : List String :=
  ["__call__", "__module__", "__name__", "__qualname__", "__self__", "__text_signature__"]

def ofDeclared : List String :=
  ["__dict__", "__module__", "__weakref__"]

def ofDeclaredClasses : List String :=
  ["__annotations__"]

def ofRecords : List String :=
  ["__annotations__", "__dataclass_fields__", "__dataclass_params__", "__match_args__"]

/-- The parts that a class itself gives its instances; those of declared classes are not known by
the name of the class. -/
def ofClass (cls : String) : List String :=
  match cls with
  | "object" => ofAny
  | "NoneType" => ["__bool__"]
  | "int" => ofReals ++ ofIntegers
  | "float" => ofReals ++ ofDoubles
  | "str" => ofSequences ++ ofStrings ++ ofTexts
  | "bytes" => ofSequences ++ ofStrings ++ ofOctets ++ ["__bytes__", "__getnewargs__"]
  | "bytearray" => ofSequences ++ ofStrings ++ ofOctets ++ ofMutables ++ ["__alloc__"]
  | "list" => ofSequences ++ ofMutables ++ ["__class_getitem__", "__reversed__", "sort"]
  | "tuple" => ofSequences ++ ["__class_getitem__", "__getnewargs__"]
  | "set" => ofSets ++ ofMutableSets
  | "frozenset" => ofSets
  | "Enum" => ofMembers
  | "type" => ofClasses
  | "EnumType" => ofEnumerations
  | "method" | "method-wrapper" | "builtin_function_or_method" => ofMethods
  | _ => []

end Part

namespace Value

/-- The parts that a class has because it is declared by the host or has fields. -/
def declaredClassParts (c : ClassInfo) : List String :=
  let declared := c.home.isSome || !c.fields.isEmpty
  (if declared then Part.ofDeclared else [])
    ++ (if declared || c.isEnumeration then Part.ofDeclaredClasses else [])
    ++ (if c.fields.isEmpty then [] else Part.ofRecords)

/-- The parts of a value that its class gives it for being the class it is: those of declared
classes, and of a class all that it gives its instances. -/
def declaredParts : Value → List String
  | .object c _ => c.methods ++ Part.ofDeclared ++ (match c.sort with
    | .record _ => Part.ofRecords
    | .labelled _ => [])
  | .key .. | .var _ => Part.ofDeclared ++ Part.ofRecords
  | .any => Part.ofDeclared
  | .member _ => Part.ofMembersAlone
  | .cls c => c.methods ++ declaredClassParts c ++ (c.name :: c.ancestors).flatMap Part.ofClass
  | _ => []

/-- The named parts of a value that are no data of its own. Whole numbers, members among them,
cannot be referred to weakly. -/
def parts (v : Value) : List String :=
  let found := v.declaredParts ++ v.classes.flatMap Part.ofClass
  if v.belongsTo "int" then found.erase "__weakref__" else found

end Value

end RuleEngine
