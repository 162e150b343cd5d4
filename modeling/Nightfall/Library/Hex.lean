import Mathlib

/-!
# Hexadecimal texts

Bytes written as pairs of lower-case digits, and read back in either case.  A text is
the list of its characters' codes.
-/

namespace Hex

/-- The lower-case digit of a value below 16. -/
def digit (value : Nat) : UInt8 :=
  if value < 10 then UInt8.ofNat (48 + value) else UInt8.ofNat (87 + value)

/-- The value of a digit of either case. -/
def digitValue (char : UInt8) : Option Nat :=
  let code := char.toNat
  if 48 ≤ code ∧ code ≤ 57 then some (code - 48)
  else if 97 ≤ code ∧ code ≤ 102 then some (code - 87)
  else if 65 ≤ code ∧ code ≤ 70 then some (code - 55)
  else none

/-- Two digits a byte, high half first. -/
def encode (bytes : List UInt8) : List UInt8 :=
  bytes.flatMap fun byte => [digit (byte.toNat / 16), digit (byte.toNat % 16)]

/-- Read a text of digits.  `none` for another character or an odd length. -/
def decode : List UInt8 → Option (List UInt8)
  | [] => some []
  | [_] => none
  | high :: low :: rest => do
      let high ← digitValue high
      let low ← digitValue low
      let bytes ← decode rest
      some (UInt8.ofNat (16 * high + low) :: bytes)

theorem digitValue_digit {value : Nat} (small : value < 16) :
    digitValue (digit value) = some value := by
  interval_cases value <;> rfl

theorem decode_encode (bytes : List UInt8) : decode (encode bytes) = some bytes := by
  induction bytes with
  | nil => rfl
  | cons byte rest ih =>
      have bounded := byte.toNat_lt
      have halves : 16 * (byte.toNat / 16) + byte.toNat % 16 = byte.toNat :=
        Nat.div_add_mod byte.toNat 16
      simp only [encode, List.flatMap_cons, List.cons_append, List.nil_append, decode,
        digitValue_digit (Nat.div_lt_of_lt_mul bounded : byte.toNat / 16 < 16),
        digitValue_digit (Nat.mod_lt _ (by decide) : byte.toNat % 16 < 16), Option.bind_eq_bind,
        Option.bind_some]
      rw [← encode, ih, halves, Option.bind_some, UInt8.ofNat_toNat]

theorem encode_injective : Function.Injective encode := by
  intro left right same
  have decoded := decode_encode left
  rw [same, decode_encode] at decoded
  exact (Option.some.inj decoded).symm

@[simp] theorem length_encode (bytes : List UInt8) :
    (encode bytes).length = 2 * bytes.length := by
  simp [encode, mul_comm]

end Hex
