import RuleEngine.Proofs.Text.Hex
import RuleEngine.Proofs.Text.Sorted
import RuleEngine.Text.Quoted

/-!
# Quoted texts end where they say

What stands between the marks of a quoted text can be read back: every escape says which character
it stands for, and none begins with the mark. So a quoted text ends at its closing mark whatever
follows, and which of two different texts comes first is decided inside the marks.

* `unescape_escapeChar`: reading one character back.
* `quoteChars_append`: a quoted text and what follows are found in their concatenation.
* `quote_diverge`: quoted forms of different texts differ before one of them ends.
-/

namespace RuleEngine.Text

variable {mark c : Char} {cs ds r s : List Char}

/-- The character with a code point in hexadecimal digits, and what follows it. -/
def readCode (width : Nat) (cs : List Char) : Option (Char × List Char) :=
  (Json.hexNumber? (cs.take width)).map fun n => (Char.ofNat n, cs.drop width)

/-- The first character of what stands inside quotation, and what follows it. -/
def unescape : List Char → Option (Char × List Char)
  | '\\' :: e :: r => match e with
    | 'n' => some ('\n', r)
    | 'r' => some ('\r', r)
    | 't' => some ('\t', r)
    | 'x' => readCode 2 r
    | 'u' => readCode 4 r
    | 'U' => readCode 8 r
    | _ => some (e, r)
  | c :: r => some (c, r)
  | [] => none

def IsMark (mark : Char) : Prop := mark = '\'' ∨ mark = '"'

theorem quoteMark_isMark (cs : List Char) : IsMark (quoteMark cs) := by
  unfold quoteMark
  split
  · exact .inr rfl
  · exact .inl rfl

theorem readCode_hexDigits {width : Nat} (h : c.toNat < 16 ^ width) (r : List Char) :
    readCode width (hexDigits width c.toNat ++ r) = some (c, r) := by
  have hlen := length_hexDigits width c.toNat
  rw [readCode, List.take_left' hlen, List.drop_left' hlen, hexNumber_hexDigits,
    Nat.mod_eq_of_lt h, Option.map_some, Char.ofNat_toNat]

theorem unescape_numericEscape (c : Char) (r : List Char) :
    unescape (numericEscape c.toNat ++ r) = some (c, r) := by
  unfold numericEscape
  split
  · rename_i h
    exact readCode_hexDigits h r
  · split
    · rename_i h
      exact readCode_hexDigits h r
    · have h : c.toNat < 16 ^ 8 := c.val.toNat_lt
      exact readCode_hexDigits h r

theorem unescape_plain (h : c ≠ '\\') (r : List Char) : unescape (c :: r) = some (c, r) := by
  unfold unescape
  split
  · rename_i heq
    cases heq
    exact absurd rfl h
  · rename_i heq
    cases heq
    rfl
  · rename_i heq
    cases heq

/-- A character is read back from its form inside quotation. -/
theorem unescape_escapeChar (hm : IsMark mark) (c : Char) (r : List Char) :
    unescape (escapeChar mark c ++ r) = some (c, r) := by
  unfold escapeChar
  split
  · rename_i h
    rcases hm with rfl | rfl <;> rcases h with rfl | rfl <;> rfl
  · rename_i h
    obtain ⟨-, hslash⟩ := not_or.mp h
    repeat' split
    · simp_all [unescape]
    · simp_all [unescape]
    · simp_all [unescape]
    · exact unescape_plain hslash r
    · exact unescape_numericEscape c r

theorem escapeChar_head (hm : IsMark mark) (c : Char) :
    ∃ d ds, escapeChar mark c = d :: ds ∧ d ≠ mark := by
  have hslash : '\\' ≠ mark := by rcases hm with rfl | rfl <;> decide
  unfold escapeChar numericEscape
  repeat' split
  all_goals first
    | exact ⟨_, _, rfl, hslash⟩
    | exact ⟨_, _, rfl, fun h => by simp_all⟩

/-- The closing mark is the first one that is not part of an escape. -/
theorem escaped_append (hm : IsMark mark)
    (h : cs.flatMap (escapeChar mark) ++ mark :: r = ds.flatMap (escapeChar mark) ++ mark :: s) :
    cs = ds ∧ r = s := by
  induction cs generalizing ds with
  | nil =>
    cases ds with
    | nil => simpa using h
    | cons d ds =>
      obtain ⟨e, es, he, hne⟩ := escapeChar_head hm d
      simp [he, hne.symm] at h
  | cons c cs ih =>
    cases ds with
    | nil =>
      obtain ⟨e, es, he, hne⟩ := escapeChar_head hm c
      simp [he, hne] at h
    | cons d ds =>
      simp only [List.flatMap_cons, List.append_assoc] at h
      have hread := congrArg unescape h
      rw [unescape_escapeChar hm, unescape_escapeChar hm] at hread
      obtain ⟨hcd, hrest⟩ := Prod.mk.inj (Option.some.inj hread)
      obtain ⟨hcs, hr⟩ := ih hrest
      exact ⟨by rw [hcd, hcs], hr⟩

/-- A quoted text and what follows are found in their concatenation. -/
theorem quoteChars_append (h : quoteChars cs ++ r = quoteChars ds ++ s) : cs = ds ∧ r = s := by
  simp only [quoteChars, List.cons_append, List.append_assoc, List.nil_append] at h
  obtain ⟨hmark, hrest⟩ := List.cons.inj h
  rw [← hmark] at hrest
  exact escaped_append (quoteMark_isMark cs) hrest

theorem quote_diverge {a b : String} (h : a ≠ b) : Diverge (quote a).toList (quote b).toList := by
  intro r s heq
  rw [quote, quote, String.toList_ofList, String.toList_ofList] at heq
  exact h (String.toList_inj.mp (quoteChars_append heq).1)

end RuleEngine.Text
