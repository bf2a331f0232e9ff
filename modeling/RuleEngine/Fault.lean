import RuleEngine.Format.Flaw
import RuleEngine.Value.Inspect

/-!
# Faults

A fault is the failure of an operation on values or of host code called by the engine. Its `label`
and `inspect` are the words under which it appears in an action's error.
-/

namespace RuleEngine

/-- Why an operation on values, or a function of the host, failed. -/
inductive Fault where
  | unhashable (cls : String)
  | incomparable (relation left right : String)
  | notContainer (cls : String)
  | notIterable (cls : String)
  | notNumber (cls : String)
  | requiresText (cls : String)
  | requiresOctets (cls : String)
  | byteRange
  | badKeyword (cls : String)
  | unaddable (left right : Value)
  | overflow
  | entryLength (position length : Nat)
  | missingKey (key : Value)
  | missingAttribute (cls name : String)
  | faultyAttribute (cls name : String)
  | negativeBudget
  | nonPositiveLimit
  | undecodable
  | loneSurrogate
  | nulInPath
  | inconsistentBases
  | uncallable (name : String)
  | unfitMember (name : String)
  | slotConflict (shown : String)
  | nulInName
  | unknownLevel (shown : String)
  | longInteger (digits : Nat)
  | unwritableInteger
  | format (flaw : FormatFlaw)
  | raised (label : String) (args : List Value)
  deriving Repr, Inhabited

namespace Fault

/-- The printed name of the fault's kind. -/
def label : Fault → String
  | unhashable _ | incomparable .. | notContainer _ | notIterable _ | notNumber _ | requiresText _
  | requiresOctets _ | badKeyword _ | unaddable .. | inconsistentBases
  | uncallable _ | unfitMember _ => "TypeError"
  | slotConflict _ | nulInName
  | byteRange | negativeBudget | nonPositiveLimit | nulInPath | longInteger _ | unwritableInteger
  | entryLength .. | unknownLevel _ => "ValueError"
  | overflow => "OverflowError"
  | missingKey _ => "KeyError"
  | missingAttribute .. => "AttributeError"
  | faultyAttribute .. => "RuntimeError"
  | undecodable => "UnicodeDecodeError"
  | loneSurrogate => "UnicodeEncodeError"
  | format flaw => flaw.label
  | raised label _ => label

def message : Fault → String
  | unhashable c => s!"unhashable type: '{c}'"
  | incomparable r a b => s!"'{r}' not supported between instances of '{a}' and '{b}'"
  | notContainer c => s!"argument of type '{c}' is not iterable"
  | notIterable c => s!"'{c}' object is not iterable"
  | notNumber c => s!"'{c}' is not a number"
  | requiresText c => s!"'in <string>' requires string as left operand, not {c}"
  | requiresOctets c => s!"a bytes-like object is required, not '{c}'"
  | byteRange => "byte must be in range(0, 256)"
  | badKeyword c => s!"keywords must be strings, not '{c}'"
  | unaddable a b => match a, a.text? with
    | _, some _ => s!"can only concatenate str (not \"{b.className}\") to str"
    | .list _, _ => s!"can only concatenate list (not \"{b.className}\") to list"
    | .tuple _, _ => s!"can only concatenate tuple (not \"{b.className}\") to tuple"
    | .bytes _, _ => s!"can't concat {b.className} to bytes"
    | .buffer _, _ => s!"can't concat {b.className} to bytearray"
    | _, _ => s!"unsupported operand type(s) for +: '{a.className}' and '{b.className}'"
  | overflow => "int too large to convert to float"
  | entryLength i n => s!"dictionary update sequence element #{i} has length {n}; 2 is required"
  | missingKey k => k.inspect
  | missingAttribute c a => s!"'{c}' object has no attribute '{a}'"
  | faultyAttribute c a => s!"reading {a} of {c} failed"
  | negativeBudget => "max_steps must be non-negative"
  | nonPositiveLimit => "limit must be positive"
  | undecodable => "invalid UTF-8"
  | loneSurrogate => "surrogates not allowed"
  | inconsistentBases => "cannot create a consistent method resolution order"
  | uncallable n => s!"{n} cannot be called with these arguments"
  | unfitMember n => s!"{n} does not describe a class"
  | slotConflict s => s!"{s} in __slots__ conflicts with class variable"
  | nulInName => "type name must not contain null characters"
  | unknownLevel s => "Unknown level: " ++ Text.quote s
  | nulInPath => "embedded null byte"
  | longInteger n => s!"Exceeds the limit (4300 digits) for integer string conversion: "
      ++ s!"value has {n} digits; use sys.set_int_max_str_digits() to increase the limit"
  | unwritableInteger => "Exceeds the limit (4300 digits) for integer string conversion; "
      ++ "use sys.set_int_max_str_digits() to increase the limit"
  | format flaw => flaw.message
  | raised _ args => match args with
    | [] => ""
    | [a] => a.display
    | _ => (Value.tuple args).inspect

/-- The fault as it is shown: its label with what it was raised with. -/
def inspect : Fault → String
  | raised label args => label ++ "(" ++ ", ".intercalate (args.map Value.inspect) ++ ")"
  | missingKey k => s!"KeyError({k.inspect})"
  | f => f.label ++ "(" ++ Text.quote f.message ++ ")"

end Fault

end RuleEngine
