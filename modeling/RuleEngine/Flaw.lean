/-!
# Flaws in declared data

Documents and options are checked against declared fields. Each departure is reported as a `Flaw`
together with the way to it from the outside in.
-/

namespace RuleEngine

/-- One step into declared data: a field by its name, or an item by its position. -/
inductive Step where
  | field (name : String)
  | item (position : Int)
  deriving DecidableEq, Repr

/-- What is wrong with a piece of declared data. -/
inductive Flaw where
  | missing
  | extra
  | keyType
  | textType
  | textEncoding
  | textTooShort
  | listTooShort
  | integerType
  | integerText
  | integerSize
  | integerFraction
  | integerInfinite
  | integerNegative
  | flagType
  | flagText
  | notAlternative
  | mapType
  | recordType
  | modelType
  | listType
  | tagMissing
  | tagUnknown
  | rejected (reason : String)
  deriving DecidableEq, Repr

def Flaw.code : Flaw → String
  | missing => "missing"
  | extra => "extra_forbidden"
  | keyType => "invalid_key"
  | textType => "string_type"
  | textEncoding => "string_unicode"
  | textTooShort => "string_too_short"
  | listTooShort => "too_short"
  | integerType => "int_type"
  | integerText => "int_parsing"
  | integerSize => "int_parsing_size"
  | integerFraction => "int_from_float"
  | integerInfinite => "finite_number"
  | integerNegative => "greater_than_equal"
  | flagType => "bool_type"
  | flagText => "bool_parsing"
  | notAlternative => "literal_error"
  | mapType => "dict_type"
  | recordType => "model_attributes_type"
  | modelType => "model_type"
  | listType => "list_type"
  | tagMissing => "union_tag_not_found"
  | tagUnknown => "union_tag_invalid"
  | rejected _ => "value_error"

/-- A flaw and where it is. -/
structure Detail where
  path : List Step
  flaw : Flaw
  deriving DecidableEq, Repr

/-- The detail as seen from one step further out. -/
def Detail.under (s : Step) (d : Detail) : Detail := ⟨s :: d.path, d.flaw⟩

end RuleEngine
