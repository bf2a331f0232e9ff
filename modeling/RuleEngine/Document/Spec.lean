import RuleEngine.Condition
import RuleEngine.Rule
import RuleEngine.Schema.Record

/-!
# Rule documents

A document declares rules as plain data: the patterns under `when`, the effects under `then`, and a
few settings. It is a record with the list `rules`, a list of rules, or one rule. Reading a document
reports all its flaws at once.
-/

namespace RuleEngine

/-- A declared pattern. -/
structure PatternSpec where
  kind : Option String
  fields : List (Value × Value)
  conditions : List (List Value)
  bind : Option String
  deriving Repr

/-- A declared effect. -/
inductive EffectSpec where
  | assert (fact : Value)
  | retract (fact : Value)
  | upsert (fact : Value)
  | emit (name : String) (payload : Value)
  | log (level : String) (message : String)
  | set (key : String) (value : Value)
  deriving Repr

def EffectSpec.fields : EffectSpec → List (String × Value)
  | assert v => [("op", .text "assert"), ("fact", v)]
  | retract v => [("op", .text "retract"), ("fact", v)]
  | upsert v => [("op", .text "upsert"), ("fact", v)]
  | emit n p => [("op", .text "emit"), ("name", .text n), ("payload", p)]
  | log l m => [("op", .text "log"), ("level", .text l), ("message", .text m)]
  | set k v => [("op", .text "set"), ("key", .text k), ("value", v)]

/-- A declared rule. -/
structure RuleSpec where
  name : String
  patterns : List PatternSpec
  effects : List EffectSpec
  salience : Int
  once : Bool
  mode : Option Mode
  throttle : Value
  deriving Repr

/-- A declared list of rules. Mirrors `RuleBookSpec`. -/
structure RuleBook where
  rules : List RuleSpec
  deriving Repr

namespace Document

def modes : List (String × Mode) := [("once", .once), ("per_fact", .perFact)]

/-- Declared conditions must be conditions. The first that is not is reported. Mirrors
`PatternSpec._validate_where`. -/
def checkConditions (atoms : List (List Value)) : Checked (List (List Value)) :=
  match Condition.ofValues (atoms.map .list) with
  | .ok _ => .ok atoms
  | .error (.fault f) => .fault f
  | .error e => .flaw (.rejected e.message)

def conditions (v : Value) : Checked (List (List Value)) :=
  (Schema.list (Schema.list .ok) v).andThen checkConditions

/-- A variable for the whole fact must be an identifier. Mirrors `PatternSpec._validate_bind`. -/
def bindName (v : Value) : Checked String :=
  (Schema.text v).andThen fun s =>
    if Text.isIdentifier s.toList then .ok s else .flaw (.rejected "bind must be an identifier")

/-- The key under which field terms are given: `fields`, or else `field_terms`. -/
def fieldsKey (es : List (Value × Value)) : String :=
  if (Assoc.lookup (.text "fields") es).isSome then "fields" else "field_terms"

def patternSpec (v : Value) : Checked PatternSpec :=
  let fieldsKey := match v with
    | .map es => fieldsKey es
    | _ => "fields"
  Schema.record ["kind", fieldsKey, "where", "bind"] (fun es =>
    PatternSpec.mk <$> Schema.defaulted "kind" (Schema.optional Schema.text) none es
      <*> Schema.defaulted fieldsKey Schema.textMap [] es
      <*> Schema.defaulted "where" conditions [] es
      <*> Schema.defaulted "bind" (Schema.optional bindName) none es) v

def effectParts (op : String) (es : List (Value × Value)) :
    Option (List String × Checked EffectSpec) :=
  match op with
  | "assert" => some (["fact"], .assert <$> Schema.required "fact" .ok es)
  | "retract" => some (["fact"], .retract <$> Schema.required "fact" .ok es)
  | "upsert" => some (["fact"], .upsert <$> Schema.required "fact" .ok es)
  | "emit" => some (["name", "payload"],
      .emit <$> Schema.required "name" Schema.fullText es
        <*> Schema.defaulted "payload" .ok .none es)
  | "log" => some (["level", "message"],
      .log <$> Schema.defaulted "level" Schema.text "info" es
        <*> Schema.required "message" Schema.text es)
  | "set" => some (["key", "value"],
      .set <$> Schema.required "key" Schema.fullText es
        <*> Schema.defaulted "value" .ok .none es)
  | _ => none

/-- Whether a value is of a class of its own, so that attributes could be looked for. -/
def hasAttributes : Value → Bool
  | .object .. | .key .. | .var _ | .any | .member _ => true
  | _ => false

/-- A declared effect, told by its operation. -/
def effectSpec (v : Value) : Checked EffectSpec :=
  match v with
  | .map es => match v.entry? "op" with
    | none => .flaw .tagMissing
    | some tag => match tag.text? with
      | none => .flaw .tagUnknown
      | some op => match effectParts op es with
        | none => .flaw .tagUnknown
        | some (parts, read) =>
          (read.withFlaws (Schema.undeclared ("op" :: parts) es)).under (.field op)
  | _ => if hasAttributes v then .flaw .tagMissing else .flaw .recordType

def ruleSpec (v : Value) : Checked RuleSpec :=
  Schema.record ["name", "when", "then", "salience", "once", "mode", "throttle"] (fun es =>
    RuleSpec.mk <$> Schema.required "name" Schema.fullText es
      <*> Schema.required "when" (Schema.fullList patternSpec) es
      <*> Schema.defaulted "then" (Schema.list effectSpec) [] es
      <*> Schema.defaulted "salience" Schema.integer 0 es
      <*> Schema.defaulted "once" Schema.flag false es
      <*> Schema.defaulted "mode" (Schema.optional (Schema.choice modes)) none es
      <*> Schema.defaulted "throttle" .ok .none es) v

def ruleBook (v : Value) : Checked RuleBook :=
  Schema.record ["rules"] (fun es =>
    RuleBook.mk <$> Schema.defaulted "rules" (Schema.list ruleSpec) [] es) v

end Document

/-- Something given as a rule document: plain data, data that has been read already, or several of
these in a list, in a tuple, or in a list under the only key `rules` of a record. -/
inductive Document where
  | data (v : Value)
  | book (b : RuleBook)
  | rule (r : RuleSpec)
  | pattern (p : PatternSpec)
  | list (items : List Document)
  | tuple (items : List Document)
  | record (items : List Document)

namespace Document

/-- What was read, or its flaws as one error. -/
def orInvalid {α : Type} (c : Checked α) : Except Error α :=
  c.toExcept (fun ds => .definition (.invalidDocument ds)) .fault

/-- The rule an item of a list of rules declares. A rule that has been read is taken as it is. -/
def item : Document → Checked RuleSpec
  | data v => ruleSpec v
  | rule r => .ok r
  | _ => .flaw .modelType

/-- The rules a list of items declares. -/
def ofItems (items : List Document) : Except Error RuleBook :=
  orInvalid (RuleBook.mk <$> (Checked.each item items).under (.field "rules"))

/-- The rules plain data declares. -/
def ofValue (v : Value) : Except Error RuleBook :=
  match v with
  | .map _ =>
    if (v.entry? "rules").isSome then orInvalid (ruleBook v)
    else (orInvalid (ruleSpec v)).map fun r => ⟨[r]⟩
  | _ => match Condition.sequence? v with
    | some xs => ofItems (xs.map data)
    | none => malformed (.documentType v.className)

/-- The rules a document declares. Mirrors `parse_rulebook`. -/
def parse : Document → Except Error RuleBook
  | data v => ofValue v
  | book b => .ok b
  | rule r => .ok ⟨[r]⟩
  | pattern _ => malformed (.documentType "PatternSpec")
  | list items | tuple items | record items => ofItems items

end Document

end RuleEngine
