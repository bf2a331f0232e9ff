import Mathlib.Data.List.Forall2
import RuleEngine.Proofs.Json.Completeness
import RuleEngine.Proofs.Json.Layout

/-!
# Written JSON reads back

The texts that values are given are texts of the grammar: words, numbers and strings, arrays, and
objects with one entry. So they read back as what they were made from.

* `ReadsAs.array`: an array of texts reads as the list of their values.
* `ReadsAs.tagged`: an object with one entry reads as a map with one entry.
* `ReadsAs.read_eq`: a text that reads as a value is one whole JSON text of this value.
-/

namespace RuleEngine.Json

open Value (jsonArray tagged)

variable {t tag : String} {p : Value} {ts : List String} {ps : List Value}

/-- The text writes the value. -/
def ReadsAs (t : String) (p : Value) : Prop := Writes t.toList (.value p)

theorem ReadsAs.word {w : String × Value} (h : w ∈ words) : ReadsAs w.1 w.2 := .token (.word h)

theorem ReadsAs.none : ReadsAs "null" .none := .word (w := ("null", .none)) (by simp [words])

theorem ReadsAs.bool (b : Bool) : ReadsAs (if b then "true" else "false") (.bool b) := by
  cases b with
  | false => exact .word (w := ("false", .bool false)) (by simp [words])
  | true => exact .word (w := ("true", .bool true)) (by simp [words])

theorem ReadsAs.int {n : Int} (hn : n.natAbs < Value.writtenBound) :
    ReadsAs (toString n) (.int n) := by
  rw [ReadsAs, toList_int]
  exact .token (.number (isNumber_int hn))

theorem ReadsAs.float (x : Double) : ReadsAs x.json (.float x) := by
  cases x with
  | nan => exact .word (w := ("NaN", .float .nan)) (by simp [words])
  | infinite s =>
    cases s with
    | false => exact .word (w := ("Infinity", .float (.infinite false))) (by simp [words])
    | true => exact .word (w := ("-Infinity", .float (.infinite true))) (by simp [words])
  | finite s e f =>
    obtain ⟨t, htext, ht⟩ := isNumber_finite s e f
    rw [ReadsAs, htext]
    exact .token (.number ht)

theorem ReadsAs.text (s : String) : ReadsAs (Text.jsonQuote s) (.text s) := by
  have htext : (Text.jsonQuote s).toList =
      '"' :: (s.toList.flatMap Text.jsonEscape ++ ['"']) := String.toList_ofList
  have hstring := IsToken.string (spells_flatMap s.toList)
  rw [String.ofList_toList] at hstring
  rw [ReadsAs, htext]
  exact .token hstring

/-! ## Arrays and objects -/

theorem isSpace_nil : IsSpace [] := nofun

theorem toList_intercalate_cons (t u : String) (us : List String) :
    (",".intercalate (t :: u :: us)).toList =
      t.toList ++ ([','] ++ (",".intercalate (u :: us)).toList) := by
  rw [String.intercalate_cons_cons, String.toList_append, String.toList_append, List.append_assoc]
  rfl

theorem writes_intercalate (h : List.Forall₂ ReadsAs ts ps) (hne : ts ≠ []) :
    Writes (",".intercalate ts).toList (.items ps) := by
  induction h with
  | nil => exact absurd rfl hne
  | @cons t p ts ps ht hts ih =>
    cases hts with
    | nil =>
      rw [String.intercalate_singleton, ← List.append_nil t.toList]
      exact .lastItem ht isSpace_nil
    | cons hu hus =>
      rw [toList_intercalate_cons]
      exact .item ht ⟨[], [], isSpace_nil, isSpace_nil, rfl⟩ (ih (List.cons_ne_nil _ _))

theorem ReadsAs.array (h : List.Forall₂ ReadsAs ts ps) : ReadsAs (jsonArray ts) (.list ps) := by
  have htext : (jsonArray ts).toList = '[' :: ([] ++ ((",".intercalate ts).toList ++ [']'])) := by
    simp [jsonArray]
  rw [ReadsAs, htext]
  cases h with
  | nil => exact .emptyArray isSpace_nil
  | cons ht hts =>
    exact .array isSpace_nil (writes_intercalate (.cons ht hts) (List.cons_ne_nil _ _))

theorem ReadsAs.tagged (h : ReadsAs t p) :
    ReadsAs (tagged tag t) (.map [(.text tag, p)]) := by
  have htext : (Value.tagged tag t).toList = '\x7b' :: ([] ++
      (('"' :: (tag.toList.flatMap Text.jsonEscape ++ '"' :: ([] ++ ':' :: []))) ++ (t.toList ++ [])
        ++ ['\x7d'])) := by
    simp [Value.tagged, Value.jsonObject, Text.jsonQuote]
  have hkey : IsKey ('"' :: (tag.toList.flatMap Text.jsonEscape ++ '"' :: ([] ++ ':' :: []))) tag :=
    ⟨_, tag.toList, [], [], spells_flatMap _, String.ofList_toList.symm, isSpace_nil,
      isSpace_nil, rfl⟩
  rw [ReadsAs, htext]
  exact .object isSpace_nil (.lastEntry hkey h isSpace_nil)

theorem ReadsAs.read_eq (h : ReadsAs t p) : Json.read t = .ok p :=
  Denotes.read_eq ⟨[], t.toList, [], isSpace_nil, h, isSpace_nil, (List.append_nil _).symm⟩

end RuleEngine.Json
