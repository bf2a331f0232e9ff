import RuleEngine.Schema.Scalar

/-!
# Declared lists and records

A declared list takes any sequence or set of values. A declared record takes a map with texts for
keys; keys it does not declare are flaws.
-/

namespace RuleEngine.Schema

/-- The items of something taken for a list. -/
def items? : Value → Option (List Value)
  | .list xs | .tuple xs | .set xs | .frozenSet xs => some xs
  | _ => none

def list {α : Type} (read : Value → Checked α) (v : Value) : Checked (List α) :=
  match items? v with
  | some xs => Checked.each read xs
  | none => .flaw .listType

def fullList {α : Type} (read : Value → Checked α) (v : Value) : Checked (List α) :=
  (list read v).andThen fun xs => if xs.isEmpty then .flaw .listTooShort else .ok xs

def keyStep (k : Value) : Step :=
  match k.text?, k.integer? with
  | some s, _ => .field s
  | _, some n => if -wordBound ≤ n ∧ n < wordBound then .item n else .field k.inspect
  | _, _ => .field k.inspect

/-- The flaws of keys that a record does not declare. -/
def undeclared (known : List String) (es : List (Value × Value)) : List Detail :=
  es.filterMap fun e => match e.1.text? with
    | some s => if known.contains s then none else some ⟨[.field s], .extra⟩
    | none => some ⟨[keyStep e.1], .keyType⟩

def required {α : Type} (name : String) (read : Value → Checked α) (es : List (Value × Value)) :
    Checked α :=
  match Assoc.lookup (.text name) es with
  | some v => (read v).under (.field name)
  | none => (Checked.flaw .missing).under (.field name)

def defaulted {α : Type} (name : String) (read : Value → Checked α) (default : α)
    (es : List (Value × Value)) : Checked α :=
  match Assoc.lookup (.text name) es with
  | some v => (read v).under (.field name)
  | none => .ok default

/-- A declared record of any kind of map. -/
def record {α : Type} (known : List String) (read : List (Value × Value) → Checked α)
    (v : Value) : Checked α :=
  match v with
  | .map es => (read es).withFlaws (undeclared known es)
  | _ => .flaw .modelType

def textMap (v : Value) : Checked (List (Value × Value)) :=
  match v with
  | .map es =>
    let rec go : List (Value × Value) → Checked (List (Value × Value))
      | [] => .ok []
      | (k, w) :: rest =>
        Checked.both (fun s fs => (Value.text s, w) :: fs)
          (((text k).under (.field "[key]")).under (keyStep k)) (go rest)
    (go es).map (Assoc.update [])
  | _ => .flaw .mapType

end RuleEngine.Schema
