import Mathlib.Data.List.Basic

/-! # Hexadecimal text of byte strings -/

namespace CeRs.Hex

/-- The lower-case digit of a value below sixteen. -/
def digit (value : Nat) : Char :=
  if value < 10 then Char.ofNat (48 + value) else Char.ofNat (87 + value)

/-- Two lower-case digits for each byte. -/
def encode (bytes : List UInt8) : String :=
  String.ofList (bytes.flatMap fun byte => [digit (byte.toNat / 16), digit (byte.toNat % 16)])

/-- The value of one digit, of either case. -/
def digitValue (character : Char) : Option Nat :=
  let code := character.toNat
  if 48 ≤ code ∧ code ≤ 57 then some (code - 48)
  else if 97 ≤ code ∧ code ≤ 102 then some (code - 87)
  else if 65 ≤ code ∧ code ≤ 70 then some (code - 55)
  else none

def decodeDigits : List Char → Option (List UInt8)
  | [] => some []
  | [_] => none
  | high :: low :: rest =>
      match digitValue high, digitValue low, decodeDigits rest with
      | some upper, some lower, some bytes => some (UInt8.ofNat (16 * upper + lower) :: bytes)
      | _, _, _ => none

/-- Accepts exactly an even number of digits. -/
def decode (text : String) : Option (List UInt8) :=
  decodeDigits text.toList

theorem digitValue_digit {value : Nat} (small : value < 16) :
    digitValue (digit value) = some value := by
  revert value
  decide

theorem decodeDigits_encode (bytes : List UInt8) :
    decodeDigits (bytes.flatMap fun byte => [digit (byte.toNat / 16), digit (byte.toNat % 16)]) =
      some bytes := by
  induction bytes with
  | nil => rfl
  | cons byte bytes induction =>
      have small : byte.toNat / 16 < 16 := Nat.div_lt_of_lt_mul (by simpa using byte.toNat_lt)
      have upper := digitValue_digit small
      have lower := digitValue_digit (Nat.mod_lt byte.toNat (by omega : 0 < 16))
      simp only [List.flatMap_cons, List.cons_append, List.nil_append, decodeDigits, upper, lower,
        induction]
      rw [Nat.div_add_mod]
      simp

@[simp] theorem decode_encode (bytes : List UInt8) : decode (encode bytes) = some bytes := by
  simp [decode, encode, decodeDigits_encode]

end CeRs.Hex
