import RuleEngine.Source.Declaration
import RuleEngine.Text.Identifier
import RuleEngine.Value.Container

/-!
# Classes of the host

A class is declared with members and with the classes it extends, and is made after these. It
resolves names in itself and its bases in an order in which a class comes before its bases and bases
keep the order given.

Some names mean something to the class itself. One lists slots: places where instances keep data,
which hide the members of the bases they are named like. One is called when another class extends
the class, and does not accept what it is called with.
-/

namespace RuleEngine

/-- A member of a class: a function, or any other value. -/
inductive ClassMember where
  | function (f : HostFunction)
  | plain (v : Value)

namespace ClassMember

/-- What the member declares to be a rule. -/
def declaration? : ClassMember → Option (Declaration × Action)
  | function f => f.declaration.map fun d => (d, f.action)
  | plain _ => none

def text? : ClassMember → Option String
  | function _ => none
  | plain v => v.text?

def inspect : ClassMember → String
  | function f => f.inspect
  | plain v => v.inspect

def truthy : ClassMember → Bool
  | function _ => true
  | plain v => v.truthy

/-- The names that the member lists: itself where it is a text, else its items. -/
def listed : ClassMember → Except Fault (List Value)
  | function _ => .error (.notIterable "function")
  | plain v => if v.text?.isSome then .ok [v] else v.iterate

end ClassMember

/-- A class to be made. Its bases are positions of classes made before, a negative one counted from
the last, and it is declared in a module of the host. -/
structure ClassDeclaration where
  name : String
  home : String
  bases : List Int
  members : List (String × ClassMember)

/-- What a class has under a name. -/
inductive Definition where
  | member (m : ClassMember)
  | slot

/-- A class. Its `order` has the positions of the classes in which it resolves names, its own first;
`layout` is the position of the class with slots, its own or an extended one, that gives the
instances their layout. -/
structure HostClass where
  name : String
  definitions : List (String × Definition)
  order : List Nat
  layout : Option Nat

namespace Resolution

/-- The first head that is in no tail. -/
def candidate? (seqs : List (List Nat)) : Option Nat :=
  (seqs.filterMap List.head?).find? fun c => seqs.all fun s => !(s.drop 1).contains c

/-- Takes a class off the front of every sequence that begins with it. -/
def dropHead (c : Nat) (seqs : List (List Nat)) : List (List Nat) :=
  seqs.map fun s => if s.head? = some c then s.drop 1 else s

/-- Merges sequences so that each keeps its order; fuel bounds the length. -/
def merge : Nat → List (List Nat) → Option (List Nat)
  | 0, _ => none
  | fuel + 1, seqs =>
    let seqs := seqs.filter fun s => !s.isEmpty
    if seqs.isEmpty then some []
    else do
      let c ← candidate? seqs
      let rest ← merge fuel (dropHead c seqs)
      return c :: rest

/-- The resolution order of one more class, given those of the earlier ones. -/
def next (orders : List (List Nat)) (bases : List Nat) : Option (List Nat) := do
  let seqs := bases.map (fun b => orders.getD b []) ++ [bases]
  let rest ← if bases.eraseDups.length = bases.length then
      merge (seqs.flatten.length + 1) seqs
    else none
  return orders.length :: rest

end Resolution

namespace ClassDeclaration

def slotsName : String := "__slots__"

/-- Names that describe the class while it is made and are no members of it. -/
def transientNames : List String := ["__qualname__", "__classcell__"]

/-- The name under which a class keeps a slot: a name that only begins with two underscores is made
the class's own. -/
def ownName (cls slot : String) : String :=
  let bare := cls.toList.dropWhile (· == '_')
  let marked := "__".toList.isPrefixOf slot.toList && !"__".toList.isSuffixOf slot.toList
  if marked && !bare.isEmpty then "_" ++ String.ofList bare ++ slot else slot

/-- Names of what every instance has. -/
def instanceNames : List String := ["__dict__", "__weakref__"]

/-- The text of a listed slot: an identifier, and none of those that every instance has already. -/
def slotText (listed : Value) : Except Fault String :=
  match listed.text? with
  | some s => if Text.isIdentifier s.toList && !(instanceNames.contains s) then .ok s
      else .error (.unfitMember slotsName)
  | none => .error (.unfitMember slotsName)

/-- Fails if the class has a member under the name of a slot. -/
def slotName (d : ClassDeclaration) (listed : Value) (text : String) : Except Fault String :=
  let name := ownName d.name text
  if (d.members.lookup name).isSome && !transientNames.contains name then
    .error (.slotConflict (if name = text then listed.inspect else Text.quote name))
  else .ok name

def slots (d : ClassDeclaration) : Except Fault (List String) := do
  let listed ← ((d.members.lookup slotsName).map ClassMember.listed).getD (.ok [])
  let texts ← listed.mapM slotText
  (listed.zip texts).mapM fun (v, s) => d.slotName v s

/-- Fails if the class has a name or a description that no class can have. -/
def check (d : ClassDeclaration) : Except Fault Unit :=
  if d.name.toList.contains '\x00' then .error .nulInName
  else match d.members.find? fun m => transientNames.contains m.1
      && (m.1 == "__classcell__" || m.2.text?.isNone) with
    | some m => .error (.unfitMember m.1)
    | none => .ok ()

/-- What a class has unless it is declared otherwise: its module and no description, and no hash if
it tells what its instances are equal to. -/
def standard (home : String) (declared : List (String × Definition)) :
    List (String × Definition) :=
  let none : Definition := .member (.plain .none)
  [("__module__", .member (.plain (.text home))), ("__doc__", none)]
    ++ (if (declared.lookup "__eq__").isSome then [("__hash__", none)] else [])

/-- What the class has, given its slots: a member before a slot, and both before what classes have
unless it is declared otherwise. -/
def definitions (d : ClassDeclaration) (slots : List String) : List (String × Definition) :=
  let declared := (d.members.filter fun m => !transientNames.contains m.1).map
    (fun m => (m.1, .member m.2)) ++ slots.map fun s => (s, .slot)
  declared ++ standard d.home declared

end ClassDeclaration

namespace HostClass

/-- The name of the member that is called when a class is extended. -/
def extensionHook : String := "__init_subclass__"

def defines (c : HostClass) (name : String) : Bool := (c.definitions.lookup name).isSome

def home? (c : HostClass) : Option String :=
  match c.definitions.lookup "__module__" with
  | some (.member m) => m.text?.filter (· != "builtins")
  | _ => none

def info (c : HostClass) : ClassInfo :=
  { name := c.name, ancestors := ["object"], home := c.home? }

/-- Whether instances laid out by the first class fit the layout of the second. -/
def fits (made : List HostClass) (first second : Option Nat) : Bool :=
  match first, second with
  | _, none => true
  | none, some _ => false
  | some i, some j => (made[i]?.map (·.order)).any (·.contains j)

/-- The layout that fits those of all bases, which must be one of these. -/
def commonLayout (made : List HostClass) (bases : List HostClass) : Except Fault (Option Nat) :=
  bases.foldlM (fun winner b =>
    if fits made winner b.layout then .ok winner
    else if fits made b.layout winner then .ok b.layout
    else .error .inconsistentBases) none

def place (length : Nat) (position : Int) : Except Fault Nat :=
  let i := if position < 0 then position + length else position
  if 0 ≤ i ∧ i < length then .ok i.toNat
  else .error (.raised "IndexError" [.text "list index out of range"])

def make (made : List HostClass) (d : ClassDeclaration) : Except Fault (List HostClass) := do
  let bases ← d.bases.mapM (place made.length)
  let inherited ← commonLayout made (bases.filterMap fun i => made[i]?)
  let slots ← d.slots
  d.check
  match Resolution.next (made.map (·.order)) bases with
  | none => .error .inconsistentBases
  | some order =>
    if (order.drop 1).any fun i => (made[i]?).any (·.defines extensionHook) then
      .error (.uncallable extensionHook)
    else
      let layout := if slots.isEmpty then inherited else some made.length
      return made ++ [⟨d.name, d.definitions slots, order, layout⟩]

end HostClass

end RuleEngine
