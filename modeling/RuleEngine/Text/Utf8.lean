/-!
# UTF-8

Octets of a text, and two ways to decode: strictly, where overlong forms, surrogates and code points
past `0x10ffff` are refused, and with replacement, where each longest beginning of a character that
does not go on as one becomes a replacement character.
-/

namespace RuleEngine.Text

def utf8Encode (s : String) : List UInt8 := s.toUTF8.toList

/-- The text with these octets, if they are well formed. -/
def utf8Decode? (bs : List UInt8) : Option String := String.fromUTF8? ⟨bs.toArray⟩

/-- The beginning of a character: the bits so far, the number of octets to come, and the range of
the next one. -/
structure Utf8Begun where
  bits : Nat
  missing : Nat
  least : Nat
  greatest : Nat
  deriving DecidableEq, Repr

/-- The character that stands for octets that are none. -/
def replacement : Char := '\uFFFD'

/-- What the first octet of a character of more than one begins. -/
def utf8Begin? (b : Nat) : Option Utf8Begun :=
  if 0xc2 ≤ b ∧ b ≤ 0xdf then some ⟨b - 0xc0, 1, 0x80, 0xbf⟩
  else if 0xe0 ≤ b ∧ b ≤ 0xef then
    some ⟨b - 0xe0, 2, if b = 0xe0 then 0xa0 else 0x80, if b = 0xed then 0x9f else 0xbf⟩
  else if 0xf0 ≤ b ∧ b ≤ 0xf4 then
    some ⟨b - 0xf0, 3, if b = 0xf0 then 0x90 else 0x80, if b = 0xf4 then 0x8f else 0xbf⟩
  else none

/-- Decodes octets after what has begun. -/
def utf8DecodeFrom : Option Utf8Begun → List UInt8 → List Char
  | none, [] => []
  | some _, [] => [replacement]
  | none, b :: bs =>
    if b < 0x80 then Char.ofNat b.toNat :: utf8DecodeFrom none bs
    else match utf8Begin? b.toNat with
      | some begun => utf8DecodeFrom (some begun) bs
      | none => replacement :: utf8DecodeFrom none bs
  | some u, b :: bs =>
    if u.least ≤ b.toNat ∧ b.toNat ≤ u.greatest then
      let bits := u.bits * 0x40 + (b.toNat - 0x80)
      if u.missing = 1 then Char.ofNat bits :: utf8DecodeFrom none bs
      else utf8DecodeFrom (some ⟨bits, u.missing - 1, 0x80, 0xbf⟩) bs
    else if b < 0x80 then replacement :: Char.ofNat b.toNat :: utf8DecodeFrom none bs
    else match utf8Begin? b.toNat with
      | some begun => replacement :: utf8DecodeFrom (some begun) bs
      | none => replacement :: replacement :: utf8DecodeFrom none bs

/-- The text that octets show, with replacements where they show none. -/
def utf8DecodeReplacing (bs : List UInt8) : String := String.ofList (utf8DecodeFrom none bs)

end RuleEngine.Text
