import RuleEngine.Digest
import RuleEngine.Proofs.Text.Hex
import RuleEngine.Proofs.Text.Utf8

/-!
# Digests tell texts apart

A digest is made of a text in three steps: its octets, their hash, and the hash in hexadecimal. The
first and the last keep texts apart, so two texts share a digest only if the hash of their octets
collides. That some octets collide is plain from counting; `Collide` names the two texts.

* `ofText_eq_iff`: digests are equal for one text and where the hash collides.
-/

namespace RuleEngine.Digest

variable {s t : String}

/-- The octets of the two texts are different and have one hash. -/
def Collide (s t : String) : Prop :=
  Text.utf8Encode s ≠ Text.utf8Encode t ∧
    sha256 (Text.utf8Encode s) = sha256 (Text.utf8Encode t)

theorem ofText_eq_iff : ofText s = ofText t ↔ s = t ∨ Collide s t := by
  constructor
  · intro h
    have hhash : sha256 (Text.utf8Encode s) = sha256 (Text.utf8Encode t) := by
      refine Text.hexOfBytes_injective (String.toList_inj.mp ?_)
      have hchars := congrArg String.toList h
      rw [ofText, ofText, String.toList_append, String.toList_append] at hchars
      exact List.append_cancel_left hchars
    by_cases hst : s = t
    · exact .inl hst
    · exact .inr ⟨fun hoctets => hst (Text.utf8Encode_injective hoctets), hhash⟩
  · rintro (rfl | ⟨-, hhash⟩)
    · rfl
    · rw [ofText, ofText, hhash]

end RuleEngine.Digest
