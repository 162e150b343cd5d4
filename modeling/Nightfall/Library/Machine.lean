import Mathlib

/-!
# Machine integer operations

The checked and saturating operations that `UInt64` does not come with.  Plain
`+` and `*` on `UInt64` already wrap, as release builds do.
-/

namespace Machine

/-- Largest value of a 128-bit counter. -/
def u128Max : Nat := 2 ^ 128 - 1

/-- Addition that reports overflow. -/
def checkedAdd (left right : UInt64) : Option UInt64 :=
  if left.toNat + right.toNat < 2 ^ 64 then some (left + right) else none

/-- Multiplication that reports overflow. -/
def checkedMul (left right : UInt64) : Option UInt64 :=
  if left.toNat * right.toNat < 2 ^ 64 then some (left * right) else none

/-- Addition that stops at the largest value. -/
def saturatingAdd (left right : UInt64) : UInt64 :=
  if left.toNat + right.toNat < 2 ^ 64 then left + right else UInt64.ofNat (2 ^ 64 - 1)

/-- Subtraction that stops at zero. -/
def saturatingSub (left right : UInt64) : UInt64 :=
  if right ≤ left then left - right else 0

/-- 128-bit addition that stops at the largest value. -/
def saturatingAdd128 (left right : Nat) : Nat :=
  min (left + right) u128Max

/-- 128-bit multiplication that stops at the largest value. -/
def saturatingMul128 (left right : Nat) : Nat :=
  min (left * right) u128Max

/-- A signed value brought into the 64-bit range. -/
def wrapI64 (value : Int) : Int :=
  Int.bmod value (2 ^ 64)

/-- `as i64`: the same 64 bits read as a signed number. -/
def asI64 (value : UInt64) : Int :=
  wrapI64 value.toNat

theorem checkedAdd_eq_some {left right total : UInt64} :
    checkedAdd left right = some total ↔
      total.toNat = left.toNat + right.toNat := by
  have total_lt := total.toNat_lt
  unfold checkedAdd
  split
  next fits =>
      rw [Option.some.injEq, ← UInt64.toNat_inj, UInt64.toNat_add,
        Nat.mod_eq_of_lt fits]
      exact eq_comm
  next overflow =>
      simp only [reduceCtorEq, false_iff]
      omega

theorem checkedMul_eq_some {left right product : UInt64} :
    checkedMul left right = some product ↔
      product.toNat = left.toNat * right.toNat := by
  have product_lt := product.toNat_lt
  unfold checkedMul
  split
  next fits =>
      rw [Option.some.injEq, ← UInt64.toNat_inj, UInt64.toNat_mul,
        Nat.mod_eq_of_lt fits]
      exact eq_comm
  next overflow =>
      simp only [reduceCtorEq, false_iff]
      omega

theorem checkedAdd_isSome {left right : UInt64} :
    (checkedAdd left right).isSome ↔ left.toNat + right.toNat < 2 ^ 64 := by
  unfold checkedAdd
  split <;> simp_all

theorem toNat_saturatingSub (left right : UInt64) :
    (saturatingSub left right).toNat = left.toNat - right.toNat := by
  unfold saturatingSub
  split
  next le => exact UInt64.toNat_sub_of_le _ _ le
  next gt =>
      have lt : left.toNat < right.toNat := by
        simpa [UInt64.le_iff_toNat_le] using gt
      simp
      omega

theorem toNat_saturatingAdd (left right : UInt64) :
    (saturatingAdd left right).toNat = min (left.toNat + right.toNat) (2 ^ 64 - 1) := by
  unfold saturatingAdd
  split
  next fits =>
      rw [UInt64.toNat_add, Nat.mod_eq_of_lt fits]
      omega
  next overflow =>
      simp
      omega

/-- A saturating sum that stays below the bound is the plain sum. -/
theorem saturatingAdd128_of_lt {left right : Nat} (fits : left + right < 2 ^ 128) :
    saturatingAdd128 left right = left + right := by
  unfold saturatingAdd128 u128Max
  omega

/-- A number is determined by its bytes. -/
theorem eq_of_bytes_eq {left right count : Nat} (leftFits : left < 2 ^ (8 * count))
    (rightFits : right < 2 ^ (8 * count))
    (same : ∀ index < count,
      UInt8.ofNat (left >>> (8 * index)) = UInt8.ofNat (right >>> (8 * index))) :
    left = right := by
  apply Nat.eq_of_testBit_eq
  intro bit
  by_cases inside : bit < 8 * count
  · have position : 8 * (bit / 8) + bit % 8 = bit := Nat.div_add_mod bit 8
    have short : bit % 8 < 8 := Nat.mod_lt _ (by norm_num)
    have bits (value : Nat) : (UInt8.ofNat (value >>> (8 * (bit / 8)))).toNat.testBit (bit % 8) =
        value.testBit bit := by
      rw [UInt8.toNat_ofNat', Nat.testBit_mod_two_pow, Nat.testBit_shiftRight, position]
      simp [short]
    rw [← bits left, ← bits right, same (bit / 8) (by omega)]
  · have above : 2 ^ (8 * count) ≤ 2 ^ bit := Nat.pow_le_pow_right (by norm_num) (by omega)
    rw [Nat.testBit_lt_two_pow (leftFits.trans_le above),
      Nat.testBit_lt_two_pow (rightFits.trans_le above)]

end Machine
