import RuleEngine.Double.Decimal
import RuleEngine.Text.Quoted
import RuleEngine.Value.Basic

/-!
# Shown values

`Value.inspect` shows a value with its structure: texts quoted, sequences in brackets, records with
their fields. `Value.display` is the plain text of a value, which differs for texts, enumeration
members and fact keys.
-/

namespace RuleEngine

namespace Member

def path (m : Member) : String := m.enumeration.name ++ "." ++ m.name

/-- The member shown with what it stands for. -/
def inspect (m : Member) : String :=
  let content := match m.payload with
    | .plain n | .integer n => toString n
    | .text s => Text.quote s
  "<" ++ m.path ++ ": " ++ content ++ ">"

/-- The plain text of a member: a number for integer members, else its path. -/
def display (m : Member) : String :=
  match m.payload with
  | .integer n => toString n
  | _ => m.path

end Member

def ClassInfo.inspect (c : ClassInfo) : String :=
  if c.isEnumeration then "<enum " ++ Text.quote c.name ++ ">"
  else "<class '" ++ c.shownName ++ "'>"

namespace Value

def commas (parts : List String) : String := ", ".intercalate parts

mutual

/-- The value shown with its structure. -/
def inspect : Value → String
  | .none => "None"
  | .bool b => if b then "True" else "False"
  | .int n => toString n
  | .float x => x.text
  | .text s => Text.quote s
  | .bytes bs => Text.quoteBytes bs
  | .buffer bs => "bytearray(" ++ Text.quoteBuffer bs ++ ")"
  | .member m => m.inspect
  | .list xs => "[" ++ commas (inspectAll xs) ++ "]"
  | .tuple xs => "(" ++ commas (inspectAll xs) ++ (if xs.length = 1 then ",)" else ")")
  | .set xs => if xs.isEmpty then "set()" else "\x7b" ++ commas (inspectAll xs) ++ "\x7d"
  | .frozenSet xs =>
    if xs.isEmpty then "frozenset()" else "frozenset(\x7b" ++ commas (inspectAll xs) ++ "\x7d)"
  | .map es => "\x7b" ++ commas (inspectEntries es) ++ "\x7d"
  | .object c fs => c.name ++ "(" ++ commas (inspectFields c.sort fs) ++ ")"
  | .key k r b =>
    "FactKey(kind=" ++ inspect k ++ ", ref=" ++ inspect r ++ ", by_content=" ++ inspect b ++ ")"
  | .var n => "Var(name=" ++ (match n.member with
    | some m => m.inspect
    | Option.none => Text.quote n.text) ++ ")"
  | .any => "ANY"
  | .method o n => "<method " ++ n ++ " of " ++ inspect o ++ " at 0x>"
  | .cls c => c.inspect

def inspectAll : List Value → List String
  | [] => []
  | x :: xs => inspect x :: inspectAll xs

/-- Entries shown with a colon between key and value. -/
def inspectEntries : List (Value × Value) → List String
  | [] => []
  | (k, v) :: es => (inspect k ++ ": " ++ inspect v) :: inspectEntries es

/-- Fields shown one by one, those of records with their names. -/
def inspectFields (sort : ObjectSort) : List (String × Value) → List String
  | [] => []
  | (n, v) :: fs =>
    (match sort with
      | .record _ => n ++ "=" ++ inspect v
      | .labelled _ => inspect v) :: inspectFields sort fs

end

def display : Value → String
  | .text s => s
  | .member m => m.display
  | .key k r _ => display k ++ ":" ++ display r
  | v => v.inspect
termination_by structural v => v

end Value

end RuleEngine
