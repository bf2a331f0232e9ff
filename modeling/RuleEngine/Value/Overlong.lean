import RuleEngine.Value.Equality

/-!
# Numbers too long to write

A whole number is written with at most 4300 digits. Sums may be longer; a value that holds such a
number can be compared and passed on, but not written. There are three ways of writing a value: its
shown form (`Value.inspect`), its plain text (`Value.display`) and its canonical text
(`Value.canonical`). They differ in what they write of enumeration members, fact keys and objects,
so each has a check of its own.
-/

namespace RuleEngine

/-- The least magnitude with more digits than are written. -/
def Value.writtenBound : Nat := Nat.pow 10 4300

/-- Whether the whole number is too long to write. The bound is not to be multiplied out. -/
@[irreducible]
def Value.isOverlongInteger (n : Int) : Bool := writtenBound ≤ n.natAbs

namespace Payload

/-- Whether the payload is a whole number that is too long to write. -/
def isOverlong : Payload → Bool
  | plain n | integer n => Value.isOverlongInteger n
  | text _ => false

/-- Whether the payload is one that its member is written as, and too long for that. -/
def isOverlongNumber : Payload → Bool
  | integer n => Value.isOverlongInteger n
  | plain _ | text _ => false

end Payload

namespace Value

mutual

/-- Whether the shown form of the value has a whole number that is too long to write. A member is
shown with what it stands for, and a method with its owner if it is a function of the owner's
class. -/
def isOverlong : Value → Bool
  | .int n => isOverlongInteger n
  | .member m => m.payload.isOverlong
  | .list xs | .tuple xs | .set xs | .frozenSet xs => isOverlongAny xs
  | .map es => isOverlongEntry es
  | .object _ fs => isOverlongField fs
  | .key k r b => isOverlong k || isOverlong r || isOverlong b
  | .method owner n => owner.functions.contains n && isOverlong owner
  | _ => false
termination_by structural v => v

def isOverlongAny : List Value → Bool
  | [] => false
  | x :: xs => isOverlong x || isOverlongAny xs
termination_by structural xs => xs

def isOverlongEntry : List (Value × Value) → Bool
  | [] => false
  | (k, v) :: es => isOverlong k || isOverlong v || isOverlongEntry es
termination_by structural es => es

def isOverlongField : List (String × Value) → Bool
  | [] => false
  | (_, v) :: fs => isOverlong v || isOverlongField fs
termination_by structural fs => fs

end

/-- Whether the plain text of the value has a whole number that is too long to write. -/
def isOverlongText : Value → Bool
  | .member m => m.payload.isOverlongNumber
  | .key k r _ => isOverlongText k || isOverlongText r
  | v => v.isOverlong
termination_by structural v => v

mutual

/-- Whether the canonical text of the value has a whole number that is too long to write. -/
def isOverlongContent : Value → Bool
  | .int n => isOverlongInteger n
  | .member m => m.payload.isOverlongNumber
  | .list xs | .tuple xs | .set xs | .frozenSet xs => isOverlongContentAny xs
  | .map es => isOverlongContentEntry es
  | .object c fs => match c.sort with
    | .record _ => isOverlongContentField fs
    | .labelled _ => isOverlongField fs
  | .key k r b => isOverlongContent k || isOverlongContent r || isOverlongContent b
  | .method owner n => isOverlong (.method owner n)
  | _ => false
termination_by structural v => v

def isOverlongContentAny : List Value → Bool
  | [] => false
  | x :: xs => isOverlongContent x || isOverlongContentAny xs
termination_by structural xs => xs

def isOverlongContentEntry : List (Value × Value) → Bool
  | [] => false
  | (k, v) :: es => isOverlongContent k || isOverlongContent v || isOverlongContentEntry es
termination_by structural es => es

def isOverlongContentField : List (String × Value) → Bool
  | [] => false
  | (_, v) :: fs => isOverlongContent v || isOverlongContentField fs
termination_by structural fs => fs

end

mutual

/-- Whether finding the stand-in of the value writes a number that is too long: that of a map, whose
entries are put in order by their shown form, or of what is known by its digest. -/
def isUnfreezable : Value → Bool
  | .list xs | .tuple xs => isUnfreezableAny xs
  | .map es => isOverlongEntry es
  | .object c fs => match c.sort with
    | .record _ => isUnfreezableField fs
    | .labelled hashable => !hashable && isOverlongField fs
  | .key k r b => isUnfreezable k || isUnfreezable r || isUnfreezable b
  | _ => false
termination_by structural v => v

def isUnfreezableAny : List Value → Bool
  | [] => false
  | x :: xs => isUnfreezable x || isUnfreezableAny xs
termination_by structural xs => xs

def isUnfreezableField : List (String × Value) → Bool
  | [] => false
  | (_, v) :: fs => isUnfreezable v || isUnfreezableField fs
termination_by structural fs => fs

end

end Value

/-- Whether showing the fault would write a number that is too long. -/
def Fault.isOverlong : Fault → Bool
  | .raised _ args => args.any Value.isOverlong
  | .missingKey k => k.isOverlong
  | _ => false

/-- Fails if what is to be written is too long. -/
def checkLength (isOverlong : Bool) : Except Fault Unit :=
  if isOverlong then .error .unwritableInteger else .ok ()

namespace Value

def checkShown (v : Value) : Except Fault Unit := checkLength v.isOverlong

def checkText (v : Value) : Except Fault Unit := checkLength v.isOverlongText

def checkContent (v : Value) : Except Fault Unit := checkLength v.isOverlongContent

def checkFreezable (v : Value) : Except Fault Unit := checkLength v.isUnfreezable

end Value

end RuleEngine
