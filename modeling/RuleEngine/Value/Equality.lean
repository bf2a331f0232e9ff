import RuleEngine.Assoc
import RuleEngine.Fault

/-!
# Equality and hashing of values

`Value.eqv` is the equality rules see. Numbers are compared by value whatever their type, texts with
text members, octets of both sorts with each other; a list never equals a tuple; sets and maps are
compared without regard to order; objects need the very same class and equal fields, methods the
same name and the very same owner (`Value.same`). A double that is not a number differs from
everything.

Keys of maps and members of sets must be `hashable`.
-/

namespace RuleEngine

/-- What equality sees of a value without parts. -/
inductive Atom where
  | none
  | number (n : Number)
  | text (s : String)
  | octets (bs : List UInt8)
  | member (enumeration : Enumeration) (name : String)
  | var (name : String)
  | any
  | cls (name : String) (home : Option String)
  deriving DecidableEq, Repr

def Atom.eqv : Atom → Atom → Bool
  | .number m, .number n => m.eqv n
  | a, b => a == b

namespace Value

/-- The atom a value is, if it has no parts. -/
def atom? : Value → Option Atom
  | .none => some .none
  | .bool b => some (.number (.whole (if b then 1 else 0)))
  | .int n => some (.number (.whole n))
  | .float x => some (.number x.number)
  | .text s => some (.text s)
  | .bytes bs | .buffer bs => some (.octets bs)
  | .member ⟨enumeration, name, payload⟩ => match payload with
    | .plain _ => some (.member enumeration name)
    | .text s => some (.text s)
    | .integer n => some (.number (.whole n))
  | .var n => some (.var n.text)
  | .any => some .any
  | .cls c => some (.cls c.name c.home)
  | _ => Option.none

/-- Equality of values without parts; false if either has some. -/
def eqvAtom (v w : Value) : Bool :=
  match v.atom?, w.atom? with
  | some a, some b => a.eqv b
  | _, _ => false

/-! ## Sameness -/

/-- Whether two values without parts are one and the same. -/
def sameAtom : Value → Value → Bool
  | .none, .none | .any, .any => true
  | .bool a, .bool b => a == b
  | .int m, .int n => m == n
  | .float x, .float y => decide (x = y)
  | .text s, .text t => s == t
  | .bytes as, .bytes bs | .buffer as, .buffer bs => as == bs
  | .member m, .member n => decide (m = n)
  | .var m, .var n => decide (m = n)
  | .cls c, .cls d => decide (c = d)
  | _, _ => false

mutual

/-- Whether two values are one and the same, of one representation throughout. -/
def same : Value → Value → Bool
  | .list xs, w => match w with
    | .list ys => sameAll xs ys
    | _ => false
  | .tuple xs, w => match w with
    | .tuple ys => sameAll xs ys
    | _ => false
  | .set xs, w => match w with
    | .set ys => sameAll xs ys
    | _ => false
  | .frozenSet xs, w => match w with
    | .frozenSet ys => sameAll xs ys
    | _ => false
  | .map es, w => match w with
    | .map fs => sameEntries es fs
    | _ => false
  | .object c fs, w => match w with
    | .object d gs => decide (c = d) && sameFields fs gs
    | _ => false
  | .key k r b, w => match w with
    | .key k' r' b' => same k k' && same r r' && same b b'
    | _ => false
  | .method o n, w => match w with
    | .method o' n' => n == n' && same o o'
    | _ => false
  | v, w => sameAtom v w
termination_by structural v => v

def sameAll : List Value → List Value → Bool
  | [], ys => ys.isEmpty
  | x :: xs, ys => match ys with
    | [] => false
    | y :: ys => same x y && sameAll xs ys
termination_by structural xs => xs

def sameEntries : List (Value × Value) → List (Value × Value) → Bool
  | [], fs => fs.isEmpty
  | (k, v) :: es, fs => match fs with
    | [] => false
    | (l, w) :: fs => same k l && same v w && sameEntries es fs
termination_by structural es => es

def sameFields : List (String × Value) → List (String × Value) → Bool
  | [], gs => gs.isEmpty
  | (m, v) :: fs, gs => match gs with
    | [] => false
    | (n, w) :: gs => m == n && same v w && sameFields fs gs
termination_by structural fs => fs

end

/-! ## Equality -/

mutual

/-- The equality rules see. -/
def eqv : Value → Value → Bool
  | .list xs, w => match w with
    | .list ys => eqvAll xs ys
    | _ => false
  | .tuple xs, w => match w with
    | .tuple ys => eqvAll xs ys
    | _ => false
  | .set xs, w => match w with
    | .set ys | .frozenSet ys => xs.length == ys.length && eqvSubset xs ys
    | _ => false
  | .frozenSet xs, w => match w with
    | .set ys | .frozenSet ys => xs.length == ys.length && eqvSubset xs ys
    | _ => false
  | .map es, w => match w with
    | .map fs => es.length == fs.length && eqvEntries es fs
    | _ => false
  | .object c fs, w => match w with
    | .object d gs => c.identity == d.identity && eqvFields fs gs
    | _ => false
  | .key k r b, w => match w with
    | .key k' r' b' => eqv k k' && eqv r r' && eqv b b'
    | _ => false
  | .method o n, w => match w with
    | .method o' n' => n == n' && same o o'
    | _ => false
  | v, w => eqvAtom v w
termination_by structural v => v

def eqvAll : List Value → List Value → Bool
  | [], ys => ys.isEmpty
  | x :: xs, ys => match ys with
    | [] => false
    | y :: ys => eqv x y && eqvAll xs ys
termination_by structural xs => xs

/-- Every member has an equal one in the second list. -/
def eqvSubset : List Value → List Value → Bool
  | [], _ => true
  | x :: xs, ys => ys.any (fun y => eqv x y) && eqvSubset xs ys
termination_by structural xs => xs

/-- Every entry has one with an equal key and an equal value in the second list. -/
def eqvEntries : List (Value × Value) → List (Value × Value) → Bool
  | [], _ => true
  | (k, v) :: es, fs =>
    (match fs.find? (fun f => eqv k f.1) with
      | some f => eqv v f.2
      | Option.none => false) && eqvEntries es fs
termination_by structural es => es

def eqvFields : List (String × Value) → List (String × Value) → Bool
  | [], gs => gs.isEmpty
  | (_, v) :: fs, gs => match gs with
    | [] => false
    | (_, w) :: gs => eqv v w && eqvFields fs gs
termination_by structural fs => fs

end

instance : BEq Value := ⟨Value.eqv⟩

mutual

/-- The class that keeps a value from being a key or a member: its own, or that of its first part
that cannot be one. -/
def unhashable? : Value → Option String
  | .buffer _ => some "bytearray"
  | .list _ => some "list"
  | .set _ => some "set"
  | .map _ => some "dict"
  | .tuple xs | .frozenSet xs => unhashableItem? xs
  | .object c fs => match c.sort with
    | .record frozen => if frozen then unhashableField? fs else some c.name
    | .labelled hashable => if hashable then Option.none else some c.name
  | .key k r b => (unhashable? k).or ((unhashable? r).or (unhashable? b))
  | _ => Option.none
termination_by structural v => v

def unhashableItem? : List Value → Option String
  | [] => Option.none
  | x :: xs => (unhashable? x).or (unhashableItem? xs)
termination_by structural xs => xs

def unhashableField? : List (String × Value) → Option String
  | [] => Option.none
  | (_, v) :: fs => (unhashable? v).or (unhashableField? fs)
termination_by structural fs => fs

end

/-- Whether the value can be a key of a map or a member of a set. -/
def hashable (v : Value) : Bool := v.unhashable?.isNone

/-- Fails unless the value can be a key or a member. -/
def checkHashable (v : Value) : Except Fault Unit :=
  match v.unhashable? with
  | some c => .error (.unhashable c)
  | Option.none => .ok ()

/-- The members without those equal to an earlier one. -/
def distinct (xs : List Value) : List Value :=
  xs.foldl (fun acc x => if acc.any (· == x) then acc else acc ++ [x]) []

/-- The set of these members, each of which must be hashable. -/
def setOf (xs : List Value) : Except Fault Value := do
  xs.forM checkHashable
  return .set (distinct xs)

/-- The unchangeable set of these members, each of which must be hashable. -/
def frozenSetOf (xs : List Value) : Except Fault Value := do
  xs.forM checkHashable
  return .frozenSet (distinct xs)

/-- The map with these entries inserted in order. -/
def mapOf (es : List (Value × Value)) : Except Fault Value := do
  es.forM fun e => checkHashable e.1
  return .map (Assoc.update [] es)

/-- The entry of a map under a text key. -/
def entry? (v : Value) (k : String) : Option Value :=
  v.entries?.bind (Assoc.lookup (.text k))

end Value

end RuleEngine
