import Mathlib

/-!
# Searching a boundary by probes

An oracle is asked about heights and may fail to answer.  `probeBack` asks at doubling
distances below a ceiling, `bisect` narrows an interval; both return how many times they
asked.  On an oracle that says yes exactly up to a boundary, the bisection ends at the
boundary, and the probe finds a height below it exactly when one of its distances reaches
that far.
-/

namespace ProbeSearch

variable (ask : ℕ → Option Bool)

/-- Ask at the distances `2 ^ exponent`, `2 ^ (exponent + 1)` and so on up to `bound`. -/
def probeBack (bound ceiling exponent : ℕ) : Option ℕ × ℕ :=
  if 2 ^ exponent ≤ bound then
    if ceiling < 2 ^ exponent then (none, 0)
    else
      match ask (ceiling - 2 ^ exponent) with
      | none => (none, 1)
      | some true => (some (ceiling - 2 ^ exponent), 1)
      | some false =>
          let (lower, asked) := probeBack bound ceiling (exponent + 1)
          (lower, asked + 1)
  else (none, 0)
termination_by bound + 1 - 2 ^ exponent
decreasing_by
  have := Nat.pow_lt_pow_succ (n := exponent) (show 1 < 2 by decide)
  omega

/-- Narrow `[lo, hi]` to the last height with a yes.  The midpoint is rounded up. -/
def bisect (lo hi : ℕ) : ℕ × ℕ :=
  if lo < hi then
    let mid := lo + (hi - lo + 1) / 2
    match ask mid with
    | none => (lo, 1)
    | some true =>
        let (found, asked) := bisect mid hi
        (found, asked + 1)
    | some false =>
        if mid = 0 then (lo, 1)
        else
          let (found, asked) := bisect lo (mid - 1)
          (found, asked + 1)
  else (lo, 0)
termination_by hi - lo
decreasing_by all_goals omega

/-- The oracle answers up to `ceiling`, with a yes exactly up to `boundary`. -/
def UpTo (boundary ceiling : ℕ) : Prop :=
  ∀ height ≤ ceiling, ask height = some (decide (height ≤ boundary))

variable {ask} {boundary ceiling : ℕ}

/-- The bisection ends at the boundary. -/
theorem bisect_eq (upTo : UpTo ask boundary ceiling) {lo hi : ℕ} (below : lo ≤ boundary)
    (above : boundary ≤ hi) (inside : hi ≤ ceiling) : (bisect ask lo hi).1 = boundary := by
  fun_induction bisect ask lo hi with
  | case1 lo hi open' mid failed =>
      rw [upTo mid (by omega)] at failed
      contradiction
  | case2 lo hi open' mid yes found asked narrowed ih =>
      rw [upTo mid (by omega), Option.some.injEq, decide_eq_true_eq] at yes
      rw [narrowed] at ih
      exact ih yes above inside
  | case3 lo hi open' mid no zero => omega
  | case4 lo hi open' mid no positive found asked narrowed ih =>
      rw [upTo mid (by omega), Option.some.injEq, decide_eq_false_iff_not] at no
      rw [narrowed] at ih
      exact ih below (by omega) (by omega)
  | case5 lo hi closed => omega

/-- Every question halves the interval. -/
theorem bisect_asked (lo hi : ℕ) :
    ∀ exponent, hi - lo < 2 ^ exponent → (bisect ask lo hi).2 ≤ exponent := by
  fun_induction bisect ask lo hi with
  | case1 lo hi open' mid failed =>
      intro exponent narrow
      cases exponent with
      | zero => omega
      | succ exponent => exact Nat.succ_le_succ (Nat.zero_le _)
  | case2 lo hi open' mid yes found asked narrowed ih =>
      intro exponent narrow
      cases exponent with
      | zero => omega
      | succ exponent =>
          rw [Nat.pow_succ] at narrow
          have half := ih exponent (by omega)
          rw [narrowed] at half
          exact Nat.succ_le_succ half
  | case3 lo hi open' mid no zero =>
      intro exponent narrow
      omega
  | case4 lo hi open' mid no positive found asked narrowed ih =>
      intro exponent narrow
      cases exponent with
      | zero => omega
      | succ exponent =>
          rw [Nat.pow_succ] at narrow
          have half := ih exponent (by omega)
          rw [narrowed] at half
          exact Nat.succ_le_succ half
  | case5 lo hi closed =>
      intro exponent narrow
      exact Nat.zero_le _

/-- The probe goes through every distance up to the bound at most once. -/
theorem probeBack_asked (bound ceiling exponent : ℕ) :
    (probeBack ask bound ceiling exponent).2 ≤ Nat.log 2 bound + 1 - exponent := by
  have last {exponent : ℕ} (inside : 2 ^ exponent ≤ bound) : exponent ≤ Nat.log 2 bound := by
    apply Nat.le_log_of_pow_le (by decide) inside
  fun_induction probeBack ask bound ceiling exponent with
  | case1 exponent inside short => exact Nat.zero_le _
  | case2 exponent inside long failed =>
      have := last inside
      simp only
      omega
  | case3 exponent inside long yes =>
      have := last inside
      simp only
      omega
  | case4 exponent inside long no lower asked probed ih =>
      have := last inside
      rw [probed] at ih
      simp only at ih ⊢
      omega
  | case5 exponent beyond => exact Nat.zero_le _

/-- The probe finds a height when some distance from `exponent` on reaches the boundary. -/
theorem probeBack_eq_some (upTo : UpTo ask boundary ceiling) {bound exponent reach : ℕ}
    (later : exponent ≤ reach) (within : 2 ^ reach ≤ bound) (inside : 2 ^ reach ≤ ceiling)
    (reaches : ceiling - boundary ≤ 2 ^ reach) :
    ∃ lower, (probeBack ask bound ceiling exponent).1 = some lower ∧ lower ≤ boundary ∧
      ceiling - lower ≤ bound := by
  have grows {exponent : ℕ} (later : exponent ≤ reach) : 2 ^ exponent ≤ 2 ^ reach :=
    Nat.pow_le_pow_right (by decide) later
  fun_induction probeBack ask bound ceiling exponent with
  | case1 exponent allowed short =>
      have := grows later
      omega
  | case2 exponent allowed long failed =>
      rw [upTo _ (Nat.sub_le _ _)] at failed
      contradiction
  | case3 exponent allowed long yes =>
      rw [upTo _ (Nat.sub_le _ _), Option.some.injEq, decide_eq_true_eq] at yes
      exact ⟨_, rfl, yes, by omega⟩
  | case4 exponent allowed long no lower asked probed ih =>
      rw [upTo _ (Nat.sub_le _ _), Option.some.injEq, decide_eq_false_iff_not] at no
      have earlier : exponent ≠ reach := by
        rintro rfl
        omega
      rw [probed] at ih
      exact ih (by omega)
  | case5 exponent beyond =>
      have := grows later
      omega

/-- It finds nothing when none does. -/
theorem probeBack_eq_none (upTo : UpTo ask boundary ceiling) {bound exponent : ℕ}
    (short : ∀ reach, 2 ^ reach ≤ bound → 2 ^ reach ≤ ceiling → 2 ^ reach < ceiling - boundary) :
    (probeBack ask bound ceiling exponent).1 = none := by
  fun_induction probeBack ask bound ceiling exponent with
  | case1 exponent allowed below => rfl
  | case2 exponent allowed long failed => rfl
  | case3 exponent allowed long yes =>
      rw [upTo _ (Nat.sub_le _ _), Option.some.injEq, decide_eq_true_eq] at yes
      have far := short exponent allowed (by omega)
      have near := Nat.sub_le_iff_le_add.mp yes
      exact absurd far (Nat.not_lt.mpr (Nat.sub_le_iff_le_add'.mpr near))
  | case4 exponent allowed long no lower asked probed ih =>
      rw [probed] at ih
      exact ih
  | case5 exponent beyond => rfl

end ProbeSearch
