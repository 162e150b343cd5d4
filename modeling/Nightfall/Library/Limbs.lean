import Mathlib

/-!
# Numbers in limbs

A number is a list of limbs, the lowest first.  A product with one factor is formed limb by
limb; what is carried out of the last limb is what spills past them.
-/

namespace Limbs

variable {base factor carry : Nat} {limbs : List Nat}

/-- The number that the limbs stand for. -/
def value (base : Nat) : List Nat → Nat
  | [] => 0
  | limb :: rest => limb + base * value base rest

/-- What a product with `factor` carries out of the last limb. -/
def carryOut (base factor : Nat) (limbs : List Nat) (carry : Nat) : Nat :=
  limbs.foldl (fun carry limb => (limb * factor + carry) / base) carry

theorem carryOut_eq (positive : 0 < base) :
    carryOut base factor limbs carry = (value base limbs * factor + carry) / base ^ limbs.length := by
  induction limbs generalizing carry with
  | nil => simp [carryOut, value]
  | cons limb rest ih =>
      have step : carryOut base factor (limb :: rest) carry =
          carryOut base factor rest ((limb * factor + carry) / base) := rfl
      have whole : value base (limb :: rest) * factor + carry =
          (limb * factor + carry) + base * (value base rest * factor) := by
        rw [value]
        ring
      rw [step, ih, whole, List.length_cons, pow_succ', ← Nat.div_div_eq_div_mul,
        Nat.add_mul_div_left _ _ positive, Nat.add_comm]

/-- Nothing spills past the limbs exactly when the product fits into them. -/
theorem carryOut_eq_zero_iff (positive : 0 < base) :
    carryOut base factor limbs 0 = 0 ↔ value base limbs * factor < base ^ limbs.length := by
  rw [carryOut_eq positive, Nat.add_zero, Nat.div_eq_zero_iff_lt (Nat.pow_pos positive)]

/-- A carry stays below the factor. -/
theorem carryOut_lt (bounded : ∀ limb ∈ limbs, limb < base) (below : carry < factor) :
    carryOut base factor limbs carry < factor := by
  induction limbs generalizing carry with
  | nil => exact below
  | cons limb rest ih =>
      have inside := bounded limb List.mem_cons_self
      refine ih (fun other member => bounded other (List.mem_cons_of_mem _ member)) ?_
      apply Nat.div_lt_of_lt_mul
      calc limb * factor + carry < limb * factor + factor := Nat.add_lt_add_left below _
        _ = (limb + 1) * factor := by ring
        _ ≤ base * factor := Nat.mul_le_mul_right _ inside

/-- The base digits of a number are its limbs. -/
theorem value_digits (number count : Nat) :
    value base ((List.range count).map fun index => number / base ^ index % base) =
      number % base ^ count := by
  induction count generalizing number with
  | zero => simp [value, Nat.mod_one]
  | succ count ih =>
      have shifted : ((List.range count).map fun index => number / base ^ (index + 1) % base) =
          (List.range count).map fun index => number / base / base ^ index % base := by
        simp only [Nat.div_div_eq_div_mul, pow_succ']
      rw [List.range_succ_eq_map, List.map_cons, List.map_map]
      change value base (number / base ^ 0 % base ::
        (List.range count).map fun index => number / base ^ (index + 1) % base) = _
      rw [value, shifted, ih, pow_zero, Nat.div_one, pow_succ', Nat.mod_mul]

end Limbs
