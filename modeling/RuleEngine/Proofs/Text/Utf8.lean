import RuleEngine.Text.Utf8

/-!
# UTF-8 is read back

* `utf8Decode_eq_some`: octets are decoded as a text exactly if they are the octets of the text.
* `utf8Encode_injective`: texts are told apart by their octets.
-/

namespace RuleEngine.Text

variable {s t : String} {bs : List UInt8}

/-- The octets that are still to come are added behind those collected in reverse. -/
theorem toList_loop_eq (bs : ByteArray) (i : Nat) (acc : List UInt8) :
    ByteArray.toList.loop bs i acc = acc.reverse ++ bs.data.toList.drop i := by
  induction i, acc using ByteArray.toList.loop.induct bs with
  | case1 i acc hlt ih =>
    have hi : i < bs.data.toList.length := by simpa using hlt
    have hget : bs.get! i = bs.data.toList[i] := by
      rw [ByteArray.get!, Array.getElem_toList]
      exact getElem!_pos bs.data i (by simpa using hlt)
    rw [ByteArray.toList.loop, if_pos hlt, ih, List.drop_eq_getElem_cons hi, hget,
      List.reverse_cons, List.append_assoc, List.singleton_append]
  | case2 i acc hge =>
    have hlen : bs.data.toList.length ≤ i := by simpa using hge
    rw [ByteArray.toList.loop, if_neg hge, List.drop_eq_nil_of_le hlen, List.append_nil]

theorem utf8Encode_eq (s : String) : utf8Encode s = s.toByteArray.data.toList := by
  change s.toByteArray.toList = _
  rw [ByteArray.toList, toList_loop_eq]
  rfl

theorem utf8Decode_utf8Encode (s : String) : utf8Decode? (utf8Encode s) = some s := by
  rw [utf8Decode?, utf8Encode_eq, Array.toArray_toList, String.fromUTF8?, dif_pos s.isValidUTF8]
  rfl

/-- Octets are decoded as the text whose octets they are, and as none if they are no text's. -/
theorem utf8Decode_eq_some : utf8Decode? bs = some s ↔ bs = utf8Encode s := by
  constructor
  · intro h
    unfold utf8Decode? String.fromUTF8? at h
    split at h
    · cases h
      rw [utf8Encode_eq, String.fromUTF8]
    · cases h
  · rintro rfl
    exact utf8Decode_utf8Encode s

theorem utf8Encode_injective (h : utf8Encode s = utf8Encode t) : s = t := by
  have hdecode := utf8Decode_utf8Encode s
  rw [h, utf8Decode_utf8Encode] at hdecode
  exact (Option.some.inj hdecode).symm

end RuleEngine.Text
