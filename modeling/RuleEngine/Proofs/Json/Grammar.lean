import RuleEngine.Proofs.Json.Number
import RuleEngine.Proofs.Json.Quoted

/-!
# The grammar of JSON texts

What a JSON text is and which value it writes, said without a reader. `Writes t p` relates the text
of a value, of the items of an array or of the entries of an object to what it stands for; `Denotes`
does so for whole texts, with white space at both ends.

`Leads` describes the texts that lead up to a place where a value or a key is to begin, whether
anything readable follows there or not. `Stops` describes those that come upon something at such a
place that is no mistake of the text, but that cannot be read: a whole number of too many digits, or
a string with half of a surrogate pair alone. `Dives` describes those whose brackets go too deep.
-/

namespace RuleEngine.Json

def IsSpace (ws : List Char) : Prop := ∀ c ∈ ws, isSpace c = true

/-! ## Values -/

/-- The text of a value without parts. -/
inductive IsToken : List Char → Value → Prop where
  | word {w : String} {v : Value} (h : (w, v) ∈ words) : IsToken w.toList v
  | number {negative : Bool} {t : List Char} {v : Value} (h : IsNumber negative t v) :
      IsToken (signOf negative ++ t) v
  | string {t s : List Char} (h : Spells t s) :
      IsToken ('"' :: (t ++ ['"'])) (.text (String.ofList s))

/-- A comma with white space around it. -/
def IsComma (t : List Char) : Prop :=
  ∃ ws ws', IsSpace ws ∧ IsSpace ws' ∧ t = ws ++ ',' :: ws'

/-- The key of an entry up to the value: a string and a colon with white space around it. -/
def IsKey (t : List Char) (key : String) : Prop :=
  ∃ k s ws ws', Spells k s ∧ key = String.ofList s ∧ IsSpace ws ∧ IsSpace ws' ∧
    t = '"' :: (k ++ '"' :: (ws ++ ':' :: ws'))

/-- What a part of a text stands for: a value, items of an array, or entries of an object. -/
inductive Part where
  | value (v : Value)
  | items (xs : List Value)
  | entries (es : List (Value × Value))

/-- The text of a part. Of several entries under one key the last counts, in the place of the
first. -/
inductive Writes : List Char → Part → Prop where
  | token {t : List Char} {v : Value} (h : IsToken t v) : Writes t (.value v)
  | emptyArray {ws : List Char} (hws : IsSpace ws) :
      Writes ('[' :: (ws ++ [']'])) (.value (.list []))
  | array {ws t : List Char} {xs : List Value} (hws : IsSpace ws) (h : Writes t (.items xs)) :
      Writes ('[' :: (ws ++ (t ++ [']']))) (.value (.list xs))
  | emptyObject {ws : List Char} (hws : IsSpace ws) :
      Writes ('\x7b' :: (ws ++ ['\x7d'])) (.value (.map []))
  | object {ws t : List Char} {es : List (Value × Value)} (hws : IsSpace ws)
      (h : Writes t (.entries es)) :
      Writes ('\x7b' :: (ws ++ (t ++ ['\x7d']))) (.value (.map (Assoc.update [] es)))
  | lastItem {t ws : List Char} {v : Value} (h : Writes t (.value v)) (hws : IsSpace ws) :
      Writes (t ++ ws) (.items [v])
  | item {t ct u : List Char} {v : Value} {xs : List Value} (h : Writes t (.value v))
      (hct : IsComma ct) (hu : Writes u (.items xs)) : Writes (t ++ (ct ++ u)) (.items (v :: xs))
  | lastEntry {kt t ws : List Char} {k : String} {v : Value} (hk : IsKey kt k)
      (h : Writes t (.value v)) (hws : IsSpace ws) :
      Writes (kt ++ (t ++ ws)) (.entries [(.text k, v)])
  | entry {kt t ct u : List Char} {k : String} {v : Value} {es : List (Value × Value)}
      (hk : IsKey kt k) (h : Writes t (.value v)) (hct : IsComma ct) (hu : Writes u (.entries es)) :
      Writes (kt ++ (t ++ (ct ++ u))) (.entries ((.text k, v) :: es))

/-- The whole text is that of the value, with white space around it. -/
def Denotes (t : List Char) (v : Value) : Prop :=
  ∃ ws u ws', IsSpace ws ∧ Writes u (.value v) ∧ IsSpace ws' ∧ t = ws ++ (u ++ ws')

/-! ## Texts that cannot be read on -/

/-- Where a text begins, or where it leads to. -/
inductive Place where
  | value
  | items
  | entries

/-- The text leads from a place to the goal, which is below so many brackets. -/
inductive Leads (goal : Place) : Nat → Place → List Char → Prop where
  | here : Leads goal 0 goal []
  | array {depth : Nat} {ws t : List Char} (hws : IsSpace ws) (h : Leads goal depth .items t) :
      Leads goal (depth + 1) .value ('[' :: (ws ++ t))
  | object {depth : Nat} {ws t : List Char} (hws : IsSpace ws) (h : Leads goal depth .entries t) :
      Leads goal (depth + 1) .value ('\x7b' :: (ws ++ t))
  | item {depth : Nat} {t : List Char} (h : Leads goal depth .value t) : Leads goal depth .items t
  | nextItem {depth : Nat} {t ct u : List Char} {v : Value} (h : Writes t (.value v))
      (hct : IsComma ct) (hu : Leads goal depth .items u) : Leads goal depth .items (t ++ (ct ++ u))
  | entry {depth : Nat} {kt t : List Char} {k : String} (hk : IsKey kt k)
      (h : Leads goal depth .value t) : Leads goal depth .entries (kt ++ t)
  | nextEntry {depth : Nat} {kt t ct u : List Char} {k : String} {v : Value} (hk : IsKey kt k)
      (h : Writes t (.value v)) (hct : IsComma ct) (hu : Leads goal depth .entries u) :
      Leads goal depth .entries (kt ++ (t ++ (ct ++ u)))

/-- The text begins with a whole number of so many digits, too many to be read. -/
def IsOverlong (t : List Char) (digits : Nat) : Prop :=
  ∃ negative ds r, t = signOf negative ++ (ds ++ r) ∧ IsWhole ds ∧ 4300 < ds.length ∧
    digits = ds.length ∧ ¬ GoesOn r

/-- What begins at this place is no mistake so far, but it cannot be read. -/
inductive IsSnag : Place → List Char → ReadError → Prop where
  | number {t : List Char} {digits : Nat} (h : IsOverlong t digits) :
      IsSnag .value t (.longInteger digits)
  | string {t : List Char} (h : Strays t) : IsSnag .value ('"' :: t) .loneSurrogate
  | key {t : List Char} (h : Strays t) : IsSnag .entries ('"' :: t) .loneSurrogate

/-- The text leads from the place to one where it cannot be read on. -/
def Reaches (place : Place) (t : List Char) (e : ReadError) : Prop :=
  ∃ goal depth lead u, Leads goal depth place lead ∧ IsSnag goal u e ∧ t = lead ++ u

/-- The whole text is readable, white space aside, up to a place where it cannot be read on. -/
def Stops (t : List Char) (e : ReadError) : Prop :=
  ∃ ws u, IsSpace ws ∧ Reaches .value u e ∧ t = ws ++ u

/-- The whole text is readable, white space aside, up to a bracket below as many others as the limit
allows. -/
def Dives (limit : Nat) (t : List Char) : Prop :=
  ∃ ws lead depth bracket u, IsSpace ws ∧ Leads .value depth .value lead ∧ limit ≤ depth ∧
    (bracket = '[' ∨ bracket = '\x7b') ∧ t = ws ++ (lead ++ bracket :: u)

end RuleEngine.Json
