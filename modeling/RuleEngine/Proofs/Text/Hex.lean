import Mathlib.Algebra.Group.Nat.Defs
import RuleEngine.Json.Reader

/-!
# Hexadecimal text reads back

* `hexNumber_hexDigits`: the number that `width` digits write is the one they were made from, up to
  multiples of `16 ^ width`.
* `hexOfBytes_injective`: octets are told apart by their digits.
-/

namespace RuleEngine.Text

theorem hexValue_hexDigit {n : Nat} (h : n < 16) : hexValue? (hexDigit n) = some n := by
  revert n
  decide

theorem hexNumber_hexDigits (width n : Nat) :
    Json.hexNumber? (hexDigits width n) = some (n % 16 ^ width) := by
  induction width generalizing n with
  | zero => simp [Json.hexNumber?, hexDigits, Nat.mod_one]
  | succ width ih =>
    have hlast : hexValue? (hexDigit (n % 16)) = some (n % 16) :=
      hexValue_hexDigit (Nat.mod_lt n (by decide))
    unfold Json.hexNumber? at ih ⊢
    rw [hexDigits, List.foldlM_append, ih]
    simp only [List.foldlM_cons, List.foldlM_nil, hlast, Option.map_some, Option.bind_eq_bind,
      Option.bind_some, Option.pure_def, Option.some.injEq]
    rw [Nat.pow_succ, Nat.mul_comm (16 ^ width) 16, Nat.mod_mul]
    omega

theorem length_hexDigits (width n : Nat) : (hexDigits width n).length = width := by
  induction width generalizing n with
  | zero => rfl
  | succ width ih => simp [hexDigits, ih]

theorem bytesOfHex_hexDigits (bs : List UInt8) :
    bytesOfHex? (bs.flatMap fun b => hexDigits 2 b.toNat) = some bs := by
  induction bs with
  | nil => rfl
  | cons b bs ih =>
    have hb : b.toNat < 256 := b.toNat_lt
    have hhigh : hexValue? (hexDigit (b.toNat / 16 % 16)) = some (b.toNat / 16 % 16) :=
      hexValue_hexDigit (Nat.mod_lt _ (by decide))
    have hlow : hexValue? (hexDigit (b.toNat % 16)) = some (b.toNat % 16) :=
      hexValue_hexDigit (Nat.mod_lt _ (by decide))
    have hsum : 16 * (b.toNat / 16 % 16) + b.toNat % 16 = b.toNat := by omega
    have hpair : hexDigits 2 b.toNat =
        [hexDigit (b.toNat / 16 % 16), hexDigit (b.toNat % 16)] := rfl
    rw [List.flatMap_cons, hpair, List.cons_append, List.cons_append, List.nil_append, bytesOfHex?,
      hhigh, hlow, ih]
    simp only [Option.bind_eq_bind, Option.bind_some, hsum, UInt8.ofNat_toNat]

theorem hexOfBytes_injective {bs cs : List UInt8} (h : hexOfBytes bs = hexOfBytes cs) :
    bs = cs := by
  have hchars := String.ofList_injective h
  have hread := congrArg bytesOfHex? hchars
  rw [bytesOfHex_hexDigits, bytesOfHex_hexDigits] at hread
  exact Option.some.inj hread

end RuleEngine.Text
