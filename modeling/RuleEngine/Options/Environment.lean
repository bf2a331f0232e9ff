import RuleEngine.Options.Build
import RuleEngine.Text.Digit

/-!
# Options from the environment

Three variables set options: a flag for pure mode, the recency, and the step budget. An empty text
sets nothing, except that it switches pure mode off.
-/

namespace RuleEngine

/-- Variables of the environment with their texts. -/
abbrev Environment := List (String × String)

namespace Environment

def trueWords : List String := ["1", "true", "yes", "on"]

def falseWords : List String := ["0", "false", "no", "off", ""]

/-- The word a text is, without blanks around it and in small letters. Only ASCII letters have a
small form here; no other letter makes one of the words asked for. -/
def word (s : String) : String :=
  String.ofList ((Text.trim Text.isBlank s.toList).map Char.toLower)

def pure (env : Environment) : Except Error OptionEntries :=
  match env.lookup "SYMRULE_PURE" with
  | none => .ok []
  | some s =>
    if trueWords.contains (word s) then .ok [(.text "pure", .other (.bool true))]
    else if falseWords.contains (word s) then .ok [(.text "pure", .other (.bool false))]
    else misconfigured (.environmentFlag "SYMRULE_PURE" s)

def recency (env : Environment) : OptionEntries :=
  match env.lookup "SYMRULE_RECENCY" with
  | none => []
  | some s => if s = "" then [] else [(.text "recency", .other (.text (word s)))]

def maxSteps (env : Environment) : Except Error OptionEntries :=
  match env.lookup "SYMRULE_MAX_STEPS" with
  | none => .ok []
  | some s =>
    if s = "" then .ok []
    else match Text.integer? (Text.trim Text.isNumberBlank s.toList) with
      | some n => .ok [(.text "max_steps", .other (.int n))]
      | none => misconfigured (.environmentInteger "SYMRULE_MAX_STEPS" s)

/-- The options the environment sets. Mirrors `SessionOptions.from_env`. -/
def options (env : Environment) : Except Error Options := do
  let p ← env.pure
  let m ← env.maxSteps
  Options.build (.value .none) (p ++ env.recency ++ m)

end Environment

end RuleEngine
