import Mathlib

/-!
# Sums of a reward that halves

A reward is paid at every position and halves, rounding down, after each interval.  What
is still to be paid is bounded by a potential: the rest of the present interval at the
present reward, and as much again as one whole interval pays for all later ones.
-/

namespace Halving

variable (initial interval : ℕ)

/-- The reward at a position. -/
def reward (position : ℕ) : ℕ :=
  initial / 2 ^ (position / interval)

/-- What the positions below a bound pay together. -/
def total (count : ℕ) : ℕ :=
  ∑ position ∈ Finset.range count, reward initial interval position

/-- A bound on what is paid from a position on. -/
def potential (position : ℕ) : ℕ :=
  (interval - position % interval) * reward initial interval position +
    interval * reward initial interval position

variable {initial interval : ℕ}

@[simp] theorem total_zero : total initial interval 0 = 0 := rfl

theorem total_succ (count : ℕ) :
    total initial interval (count + 1) =
      total initial interval count + reward initial interval count :=
  Finset.sum_range_succ _ count

/-- The reward does not grow. -/
theorem reward_antitone : Antitone (reward initial interval) := by
  intro earlier later le
  exact Nat.div_le_div_left (Nat.pow_le_pow_right (by norm_num) (Nat.div_le_div_right le))
    (by positivity)

theorem reward_zero : reward initial interval 0 = initial := by
  simp [reward]

/-- Within an interval the next reward is the same. -/
theorem reward_succ_of_inside {position : ℕ} (inside : position % interval + 1 < interval) :
    reward initial interval (position + 1) = reward initial interval position := by
  have same : (position + 1) / interval = position / interval :=
    Nat.succ_div_of_not_dvd fun divides => by
      have whole := Nat.mod_eq_zero_of_dvd divides
      rw [Nat.add_mod, Nat.mod_eq_of_lt (show 1 < interval by omega),
        Nat.mod_eq_of_lt inside] at whole
      omega
  rw [reward, reward, same]

/-- At the end of an interval the next reward is half the present one. -/
theorem reward_succ_of_end {position : ℕ} (ends : position % interval + 1 = interval) :
    reward initial interval (position + 1) = reward initial interval position / 2 := by
  have divides : interval ∣ position + 1 := by
    refine ⟨position / interval + 1, ?_⟩
    have split := Nat.div_add_mod position interval
    rw [Nat.mul_add, mul_one]
    omega
  rw [reward, reward, Nat.succ_div_of_dvd divides, pow_succ, Nat.div_div_eq_div_mul]

/-- Paying one reward takes it out of the potential. -/
theorem potential_succ_le (positive : 0 < interval) (position : ℕ) :
    reward initial interval position + potential initial interval (position + 1) ≤
      potential initial interval position := by
  have below := Nat.mod_lt position positive
  unfold potential
  have within : position % interval + 1 ≤ interval := below
  rcases Nat.lt_or_eq_of_le within with inside | ends
  · rw [reward_succ_of_inside inside]
    have next : (position + 1) % interval = position % interval + 1 := by
      rw [Nat.add_mod, Nat.mod_eq_of_lt (show 1 < interval by omega), Nat.mod_eq_of_lt inside]
    have rest : interval - position % interval = 1 + (interval - (position + 1) % interval) := by
      omega
    rw [rest, Nat.add_mul, one_mul, Nat.add_assoc]
  · rw [reward_succ_of_end ends]
    have wraps : (position + 1) % interval = 0 := by
      rw [← Nat.mod_add_mod, ends, Nat.mod_self]
    have last : interval - position % interval = 1 := by omega
    rw [wraps, last, Nat.sub_zero, one_mul, ← two_mul, ← Nat.mul_left_comm]
    have halved := Nat.mul_le_mul_left interval
      (Nat.mul_div_le (reward initial interval position) 2)
    omega

/-- Paid and outstanding together never exceed twice one interval's first rewards. -/
theorem total_add_potential_le (positive : 0 < interval) (count : ℕ) :
    total initial interval count + potential initial interval count ≤
      2 * (interval * initial) := by
  induction count with
  | zero => simp [potential, reward_zero, two_mul]
  | succ count ih =>
      have paid := @potential_succ_le initial interval positive count
      rw [total_succ]
      omega

/-- No number of positions pays more than twice one interval's first rewards. -/
theorem total_le (positive : 0 < interval) (count : ℕ) :
    total initial interval count ≤ 2 * (interval * initial) :=
  (Nat.le_add_right _ _).trans (total_add_potential_le positive count)

/-- Once the reward is zero it stays zero. -/
theorem reward_eq_zero_of_le {earlier later : ℕ} (le : earlier ≤ later)
    (zero : reward initial interval earlier = 0) : reward initial interval later = 0 :=
  Nat.eq_zero_of_le_zero ((reward_antitone le).trans zero.le)

end Halving
