import RuleEngine.Value.Equality

/-!
# Values as containers

Membership, iteration and addition.
-/

namespace RuleEngine.Value

/-- Whether `part` occurs in a list without gaps. -/
def isSublist {α : Type} [BEq α] (part : List α) : List α → Bool
  | [] => part.isEmpty
  | x :: xs => part.isPrefixOf (x :: xs) || isSublist part xs

/-- The whole number a value can stand for. -/
def integer? : Value → Option Int
  | .bool b => some (if b then 1 else 0)
  | .int n => some n
  | .member ⟨_, _, .integer n⟩ => some n
  | _ => Option.none

/-- Membership in octets: of a number below 256, or of further octets. -/
def octetsContain (bs : List UInt8) (item : Value) : Except Fault Bool :=
  match item.integer?, item.octets? with
  | some n, _ => if 0 ≤ n ∧ n < 256 then .ok (bs.contains (UInt8.ofNat n.toNat))
      else .error .byteRange
  | _, some cs => .ok (isSublist cs bs)
  | _, _ => .error (.requiresOctets item.className)

/-- Membership in an enumeration, asked of members of any. -/
def enumerationContains (c : ClassInfo) (item : Value) : Except Fault Bool :=
  match item with
  | .member m => .ok (m.enumeration == c.enumeration)
  | _ => .error (.incomparable "in" item.className "EnumType")

/-- Whether the container holds the item. A set may be looked up in sets although it is not
hashable. -/
def contains (container item : Value) : Except Fault Bool :=
  match container with
  | .list xs | .tuple xs => .ok (xs.any (· == item))
  | .set xs | .frozenSet xs => match item with
    | .set _ => .ok (xs.any (· == item))
    | _ => do item.checkHashable; return xs.any (· == item)
  | .map es => do item.checkHashable; return Assoc.contains item es
  | .bytes bs | .buffer bs => octetsContain bs item
  | .cls c => if c.isEnumeration then enumerationContains c item
      else .error (.notContainer container.className)
  | _ => match container.text?, item.text? with
    | some s, some t => .ok (isSublist t.toList s.toList)
    | some _, Option.none => .error (.requiresText item.className)
    | Option.none, _ => .error (.notContainer container.className)

def iterate : Value → Except Fault (List Value)
  | .list xs | .tuple xs | .set xs | .frozenSet xs => .ok xs
  | .map es => .ok (es.map (·.1))
  | .bytes bs | .buffer bs => .ok (bs.map fun b => .int b.toNat)
  | .cls c => if c.isEnumeration then .ok (c.enumeration.members.map .member)
      else .error (.notIterable "type")
  | v => match v.text? with
    | some s => .ok (s.toList.map fun c => .text (String.singleton c))
    | Option.none => .error (.notIterable v.className)

/-- The item at a position, counted from the end when the position is negative. -/
def itemAt (items : List Value) (position : Int) : Except Fault Value :=
  let i := if position < 0 then position + items.length else position
  match if i < 0 then Option.none else items[i.toNat]? with
  | some v => .ok v
  | Option.none => .error (.raised "IndexError" [.text "index out of range"])

/-- The part of a value under a key: the entry of a map or the item of a sequence. -/
def item (v k : Value) : Except Fault Value :=
  match v, k.integer? with
  | .map es, _ => do
    k.checkHashable
    match Assoc.lookup k es with
    | some w => return w
    | Option.none => .error (.missingKey k)
  | .list xs, some i | .tuple xs, some i => itemAt xs i
  | .bytes bs, some i | .buffer bs, some i => itemAt (bs.map fun b => .int b.toNat) i
  | _, some i => match v.text? with
    | some s => itemAt (s.toList.map fun c => .text (String.singleton c)) i
    | Option.none => .error (.notContainer v.className)
  | _, Option.none => .error (.notContainer v.className)

/-- Inserts an item that is a pair as an entry; the position is the item's. -/
def insertPair (es : List (Value × Value)) (item : Value × Nat) :
    Except Fault (List (Value × Value)) :=
  match iterate item.1 with
  | .error _ => .error (.notIterable item.1.className)
  | .ok [k, v] => do k.checkHashable; return Assoc.insert k v es
  | .ok parts => .error (.entryLength item.2 parts.length)

/-- The entries of a map, or of a container of pairs. -/
def toEntries (v : Value) : Except Fault (List (Value × Value)) :=
  match v with
  | .map es => .ok es
  | _ => do (← iterate v).zipIdx.foldlM insertPair []

/-- A number as a double; a whole number beyond the range of doubles has none. -/
def toDouble? (v : Value) : Option (Except Fault Double) :=
  match v, v.integer? with
  | .float x, _ => some (.ok x)
  | _, some n => match Double.ofInt n with
    | .infinite _ => some (.error .overflow)
    | x => some (.ok x)
  | _, _ => Option.none

/-- The sum of two numbers, or two sequences of one type joined. -/
def add (v w : Value) : Except Fault Value :=
  match v.integer?, w.integer?, v.toDouble?, w.toDouble? with
  | some a, some b, _, _ => .ok (.int (a + b))
  | _, _, some a, some b => do return .float ((← a).add (← b))
  | _, _, _, _ => match v, w with
    | .list xs, .list ys => .ok (.list (xs ++ ys))
    | .tuple xs, .tuple ys => .ok (.tuple (xs ++ ys))
    | _, _ => match v.text?, w.text?, v.octets?, w.octets? with
      | some s, some t, _, _ => .ok (.text (s ++ t))
      | _, _, some bs, some cs => match v with
        | .buffer _ => .ok (.buffer (bs ++ cs))
        | _ => .ok (.bytes (bs ++ cs))
      | _, _, _, _ => .error (.unaddable v w)

end RuleEngine.Value
