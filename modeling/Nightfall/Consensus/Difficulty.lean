import Nightfall.Consensus.Block

/-!
# The retarget, operation by operation

`nextDifficulty` checks every arithmetic operation of the retarget.  It agrees with
`lwmaDifficulty` wherever it returns, and it returns wherever the average difficulty of the
window is not zero.
-/

namespace Machine

/-- A signed 64-bit result, unless it overflows. -/
def checkedI64 (value : Int) : Option Int :=
  if -(2 ^ 63) ≤ value ∧ value < 2 ^ 63 then some value else none

/-- An unsigned 128-bit result, unless it overflows. -/
def checkedU128 (value : Nat) : Option Nat :=
  if value < 2 ^ 128 then some value else none

/-- `Ord::clamp`, which panics unless the bounds are in order. -/
def clamp {α : Type*} [LinearOrder α] (value low high : α) : Option α :=
  if low ≤ high then some (max low (min high value)) else none

theorem checkedI64_of_natAbs_lt {value : Int} (small : value.natAbs < 2 ^ 63) :
    checkedI64 value = some value := by
  rw [checkedI64, if_pos (by omega)]

theorem checkedU128_of_lt {value : Nat} (small : value < 2 ^ 128) :
    checkedU128 value = some value := if_pos small

theorem clamp_of_le {α : Type*} [LinearOrder α] {low high : α} (ordered : low ≤ high)
    (value : α) : clamp value low high = some (max low (min high value)) := if_pos ordered

theorem asI64_of_lt {value : UInt64} (small : value.toNat < 2 ^ 63) :
    asI64 value = value.toNat := by
  rw [asI64, wrapI64, Int.bmod_eq_of_le (by omega) (by omega)]

theorem wrapI64_of_natAbs_lt {value : Int} (small : value.natAbs < 2 ^ 63) :
    wrapI64 value = value := by
  rw [wrapI64, Int.bmod_eq_of_le (by omega) (by omega)]

end Machine

namespace Nightfall

open Machine

/-- The loop over a window, from the entry at `index`. -/
def weighSolvetimes (minSolvetime maxSolvetime : Int) :
    Nat → UInt64 × UInt64 → List (UInt64 × UInt64) → Int → Nat → Option (Int × Nat)
  | _, _, [], weighted, difficulties => some (weighted, difficulties)
  | index, previous, current :: rest, weighted, difficulties => do
      let elapsed ← checkedI64 (asI64 current.1 - asI64 previous.1)
      let solvetime ← clamp elapsed minSolvetime maxSolvetime
      let product ← checkedI64 (solvetime * index)
      let weighted ← checkedI64 (weighted + product)
      let difficulties ← checkedU128 (difficulties + current.2.toNat)
      weighSolvetimes minSolvetime maxSolvetime (index + 1) current rest weighted difficulties

/-- The entries that the retarget consults. -/
def retargetWindow (history : List (UInt64 × UInt64)) : List (UInt64 × UInt64) :=
  history.drop (history.length - (difficultyWindow + 1))

/-- Difficulty of the block that follows `history`, or nothing where the code panics. -/
def nextDifficulty (history : List (UInt64 × UInt64)) (initial minDifficulty : UInt64) :
    Option UInt64 :=
  let n := difficultyWindow
  if history.length < n + 1 then some (max initial minDifficulty)
  else
    match retargetWindow history with
    -- The window has `n + 1` entries.
    | [] => none
    | first :: rest => do
        let target : Int := targetBlockTimeSecs
        let minSolvetime ← checkedI64 (lwmaMinSolvetimeFactor * target)
        let maxSolvetime ← checkedI64 (lwmaMaxSolvetimeFactor * target)
        let (weighted, difficultySum) ← weighSolvetimes minSolvetime maxSolvetime 1 first rest 0 0
        let pairs ← checkedI64 ((n : Int) * (n + 1))
        let doubled ← checkedI64 (pairs * target)
        let k := doubled / 2
        let minWeighted := k / 10
        let weighted := if weighted < minWeighted then minWeighted else weighted
        let average := difficultySum / n
        let next := saturatingMul128 average k.toNat / (max weighted 1).toNat
        let upper := saturatingMul128 average 2
        let lower := max (average / 2) 1
        let clamped ← clamp next lower upper
        some (max (UInt64.ofNat (min clamped (2 ^ 64 - 1))) minDifficulty)

/-! ## The sums -/

/-- The clamped time between two blocks. -/
def solvetime (previous current : UInt64) : Int :=
  max (-75) (min 90 (wrapI64 (asI64 current - asI64 previous)))

/-- The weighted solve times from the entry at `index`. -/
def weighted : Nat → UInt64 → List UInt64 → Int
  | _, _, [] => 0
  | index, previous, current :: rest =>
      solvetime previous current * index + weighted (index + 1) current rest

/-- What the difficulties of the blocks in the window add up to. -/
def difficultySum (history : List (UInt64 × UInt64)) : Nat :=
  ((retargetWindow history).tail.map fun entry => entry.2.toNat).sum

def averageDifficulty (history : List (UInt64 × UInt64)) : Nat :=
  difficultySum history / difficultyWindow

theorem weighted_eq_sum (index : Nat) (previous : UInt64 × UInt64)
    (rest : List (UInt64 × UInt64)) :
    ((((previous :: rest).zip rest).zipIdx index).map fun (pair, index) =>
      solvetime pair.1.1 pair.2.1 * (index : Int)).sum =
        weighted index previous.1 (rest.map Prod.fst) := by
  induction rest generalizing index previous with
  | nil => rfl
  | cons current rest ih =>
      rw [List.zip_cons_cons, List.zipIdx_cons, List.map_cons, List.sum_cons, ih]
      rfl

theorem natAbs_solvetime_le (previous current : UInt64) :
    (solvetime previous current).natAbs ≤ 90 := by
  unfold solvetime
  omega

/-- Timestamps below the sign bit. -/
def SmallTimes (history : List (UInt64 × UInt64)) : Prop :=
  ∀ entry ∈ history, entry.1.toNat < 2 ^ 63

/-- A longer interval does not count for less. -/
theorem solvetime_mono {previous current later : UInt64} (previousSmall : previous.toNat < 2 ^ 63)
    (laterSmall : later.toNat < 2 ^ 63) (le : current ≤ later) :
    solvetime previous current ≤ solvetime previous later := by
  have order := UInt64.le_iff_toNat_le.mp le
  rw [solvetime, solvetime, asI64_of_lt previousSmall, asI64_of_lt laterSmall,
    asI64_of_lt (order.trans_lt laterSmall), wrapI64_of_natAbs_lt (by omega),
    wrapI64_of_natAbs_lt (by omega)]
  omega

/-- One round of the loop whose operations all return. -/
theorem weighSolvetimes_cons {minSolvetime maxSolvetime elapsed clamped product later total : Int}
    {index difficulties sum : Nat} {previous current : UInt64 × UInt64}
    {rest : List (UInt64 × UInt64)}
    (elapses : checkedI64 (asI64 current.1 - asI64 previous.1) = some elapsed)
    (clamps : clamp elapsed minSolvetime maxSolvetime = some clamped)
    (weighs : checkedI64 (clamped * index) = some product)
    (adds : checkedI64 (total + product) = some later)
    (sums : checkedU128 (difficulties + current.2.toNat) = some sum) :
    weighSolvetimes minSolvetime maxSolvetime index previous (current :: rest) total
        difficulties =
      weighSolvetimes minSolvetime maxSolvetime (index + 1) current rest later sum := by
  simp only [weighSolvetimes, elapses, clamps, weighs, adds, sums, Option.bind_eq_bind,
    Option.bind_some]

/-- No step of the loop overflows. -/
theorem weighSolvetimes_eq {index : Nat} {previous : UInt64 × UInt64}
    {rest : List (UInt64 × UInt64)} {total : Int} {difficulties : Nat}
    (previousSmall : previous.1.toNat < 2 ^ 63) (small : SmallTimes rest)
    (short : index + rest.length ≤ 91) (totalSmall : total.natAbs ≤ 8190 * index)
    (difficultiesSmall : difficulties ≤ 2 ^ 64 * index) :
    weighSolvetimes (-75) 90 index previous rest total difficulties =
      some (total + weighted index previous.1 (rest.map Prod.fst),
        difficulties + (rest.map fun entry => entry.2.toNat).sum) := by
  induction rest generalizing index previous total difficulties with
  | nil => simp [weighSolvetimes, weighted]
  | cons current rest ih =>
      have currentSmall := small current List.mem_cons_self
      have restSmall : SmallTimes rest := fun entry member =>
        small entry (List.mem_cons_of_mem _ member)
      have difficulty := current.2.toNat_lt
      rw [List.length_cons] at short
      have elapsed : checkedI64 (asI64 current.1 - asI64 previous.1) =
          some (wrapI64 (asI64 current.1 - asI64 previous.1)) := by
        rw [asI64_of_lt currentSmall, asI64_of_lt previousSmall,
          checkedI64_of_natAbs_lt (by omega), wrapI64_of_natAbs_lt (by omega)]
      have bounds : (-75 : Int) ≤ 90 := by decide
      have clamped : clamp (wrapI64 (asI64 current.1 - asI64 previous.1)) (-75) 90 =
          some (solvetime previous.1 current.1) := by
        rw [clamp_of_le bounds, solvetime]
      have productSmall : (solvetime previous.1 current.1 * index).natAbs ≤ 8190 := by
        rw [Int.natAbs_mul, Int.natAbs_natCast]
        exact Nat.mul_le_mul (natAbs_solvetime_le _ _) (by omega : index ≤ 91)
      have sumSmall : (total + solvetime previous.1 current.1 * index).natAbs ≤
          8190 * (index + 1) := by
        have triangle := Int.natAbs_add_le total (solvetime previous.1 current.1 * index)
        omega
      rw [weighSolvetimes_cons elapsed clamped (checkedI64_of_natAbs_lt (by omega))
        (checkedI64_of_natAbs_lt (by omega)) (checkedU128_of_lt (by omega)),
        ih currentSmall restSmall (by omega) sumSmall (by omega)]
      simp only [List.map_cons, List.sum_cons, weighted, add_assoc]

/-! ## The new difficulty -/

/-- The difficulty for an average and a weighted solve time, before the network's floor. -/
def retarget (average : Nat) (weighted : Int) : Nat :=
  max (max (average / 2) 1) (min (2 * average) (average * 61425 / (max weighted 6142).toNat))

theorem retarget_antitone (average : Nat) {fast slow : Int} (le : fast ≤ slow) :
    retarget average slow ≤ retarget average fast := by
  have positive : 0 < (max fast 6142).toNat := by omega
  have slower : (max fast 6142).toNat ≤ (max slow 6142).toNat := by omega
  have quotient : average * 61425 / (max slow 6142).toNat ≤
      average * 61425 / (max fast 6142).toNat := Nat.div_le_div_left slower positive
  exact max_le_max_left _ (min_le_min_left _ quotient)

theorem le_retarget (average : Nat) (weighted : Int) : average / 2 ≤ retarget average weighted :=
  (le_max_left _ _).trans (le_max_left _ _)

theorem retarget_le {average : Nat} (positive : 0 < average) (weighted : Int) :
    retarget average weighted ≤ 2 * average := by
  have lower : max (average / 2) 1 ≤ 2 * average := by omega
  exact max_le lower (min_le_left _ _)

/-- The result within 64 bits and above the network's floor. -/
def floored (value : Nat) (minDifficulty : UInt64) : UInt64 :=
  max (UInt64.ofNat (min value (2 ^ 64 - 1))) minDifficulty

theorem toNat_floored (value : Nat) (minDifficulty : UInt64) :
    (floored value minDifficulty).toNat = max (min value (2 ^ 64 - 1)) minDifficulty.toNat := by
  have capped : (UInt64.ofNat (min value (2 ^ 64 - 1))).toNat = min value (2 ^ 64 - 1) := by
    rw [UInt64.toNat_ofNat', Nat.mod_eq_of_lt (by omega)]
  rw [floored, UInt64.max_def]
  split
  · next le =>
      rw [UInt64.le_iff_toNat_le, capped] at le
      exact (max_eq_right le).symm
  · next gt =>
      rw [UInt64.le_iff_toNat_le, capped] at gt
      rw [capped, max_eq_left (Nat.le_of_not_le gt)]

/-- The weighted solve times of a window. -/
def windowWeight : List (UInt64 × UInt64) → Int
  | [] => 0
  | first :: rest => weighted 1 first.1 (rest.map Prod.fst)

variable {history : List (UInt64 × UInt64)} {initial minDifficulty : UInt64}

theorem nextDifficulty_of_short (short : history.length < difficultyWindow + 1) :
    nextDifficulty history initial minDifficulty = some (max initial minDifficulty) := if_pos short

theorem length_retargetWindow (long : difficultyWindow + 1 ≤ history.length) :
    (retargetWindow history).length = difficultyWindow + 1 := by
  rw [retargetWindow, List.length_drop]
  omega

theorem SmallTimes.window (small : SmallTimes history) : SmallTimes (retargetWindow history) :=
  fun entry member => small entry (List.mem_of_mem_drop member)

/-- The code after the loop. -/
theorem nextDifficulty_of_steps {first : UInt64 × UInt64} {rest : List (UInt64 × UInt64)}
    {low high total pairs doubled : Int} {sum : Nat}
    (long : ¬history.length < difficultyWindow + 1)
    (window : retargetWindow history = first :: rest)
    (lows : checkedI64 (lwmaMinSolvetimeFactor * targetBlockTimeSecs) = some low)
    (highs : checkedI64 (lwmaMaxSolvetimeFactor * targetBlockTimeSecs) = some high)
    (loop : weighSolvetimes low high 1 first rest 0 0 = some (total, sum))
    (pairing : checkedI64 ((difficultyWindow : Int) * (difficultyWindow + 1)) = some pairs)
    (doubling : checkedI64 (pairs * targetBlockTimeSecs) = some doubled) :
    nextDifficulty history initial minDifficulty =
      (clamp
        (saturatingMul128 (sum / difficultyWindow) (doubled / 2).toNat /
          (max (if total < doubled / 2 / 10 then doubled / 2 / 10 else total) 1).toNat)
        (max (sum / difficultyWindow / 2) 1)
        (saturatingMul128 (sum / difficultyWindow) 2)).bind fun clamped =>
          some (floored clamped minDifficulty) := by
  simp only [nextDifficulty, if_neg long, window, lows, highs, loop, pairing, doubling,
    Option.bind_eq_bind, Option.bind_some, floored]

theorem averageDifficulty_lt (long : difficultyWindow + 1 ≤ history.length) :
    averageDifficulty history < 2 ^ 64 := by
  have bounded : difficultySum history ≤ difficultyWindow * (2 ^ 64 - 1) := by
    have length : ((retargetWindow history).tail.map fun entry => entry.2.toNat).length =
        difficultyWindow := by
      rw [List.length_map, List.length_tail, length_retargetWindow long, Nat.add_sub_cancel]
    rw [difficultySum, ← length]
    apply List.sum_le_card_nsmul
    intro value member
    obtain ⟨entry, _, rfl⟩ := List.mem_map.mp member
    exact Nat.le_sub_one_of_lt entry.2.toNat_lt
  exact (Nat.div_le_of_le_mul bounded).trans_lt (by decide)

/-- The bounds are in order unless the average is zero. -/
theorem clamp_retarget {average : Nat} (fits : average < 2 ^ 64) (total : Int)
    (minDifficulty : UInt64) :
    ((clamp
        (saturatingMul128 average ((122850 : Int) / 2).toNat /
          (max (if total < (122850 : Int) / 2 / 10 then (122850 : Int) / 2 / 10 else total) 1).toNat)
        (max (average / 2) 1) (saturatingMul128 average 2)).bind fun clamped =>
          some (floored clamped minDifficulty)) =
      if average = 0 then none
      else some (floored (retarget average total) minDifficulty) := by
  have scale : ((122850 : Int) / 2).toNat = 61425 := by decide
  have floor : (122850 : Int) / 2 / 10 = 6142 := by decide
  have product : saturatingMul128 average 61425 = average * 61425 := by
    rw [saturatingMul128, u128Max]
    omega
  have double : saturatingMul128 average 2 = 2 * average := by
    rw [saturatingMul128, u128Max]
    omega
  have divisor : max (if total < 6142 then (6142 : Int) else total) 1 = max total 6142 := by
    split <;> omega
  rw [scale, floor, product, double, divisor]
  split
  · next zero =>
      rw [clamp, if_neg (by omega), Option.bind_none]
  · next positive =>
      rw [clamp_of_le (by omega), Option.bind_some, retarget, min_comm]

/-- A full window is averaged, unless the average is zero. -/
theorem nextDifficulty_of_long (small : SmallTimes history)
    (long : difficultyWindow + 1 ≤ history.length) :
    nextDifficulty history initial minDifficulty =
      if averageDifficulty history = 0 then none
      else some (floored
        (retarget (averageDifficulty history) (windowWeight (retargetWindow history)))
        minDifficulty) := by
  have length := length_retargetWindow long
  obtain ⟨first, rest, window⟩ := List.exists_cons_of_length_eq_add_one length
  have restLength : rest.length = 90 := by
    rw [window] at length
    exact Nat.succ.inj length
  have windowSmall := small.window
  rw [window] at windowSmall
  have loop := @weighSolvetimes_eq 1 first rest 0 0 (windowSmall first List.mem_cons_self)
    (fun entry member => windowSmall entry (List.mem_cons_of_mem _ member)) (by omega)
    (by decide) (by decide)
  have sum : (rest.map fun entry => entry.2.toNat).sum = difficultySum history := by
    rw [difficultySum, window, List.tail_cons]
  have weight : weighted 1 first.1 (rest.map Prod.fst) =
      windowWeight (retargetWindow history) := by
    rw [window, windowWeight]
  rw [Int.zero_add, Nat.zero_add, sum, weight] at loop
  have average := averageDifficulty_lt long
  have lows : checkedI64 (lwmaMinSolvetimeFactor * targetBlockTimeSecs) = some (-75) := by decide
  have highs : checkedI64 (lwmaMaxSolvetimeFactor * targetBlockTimeSecs) = some 90 := by decide
  have pairing : checkedI64 ((difficultyWindow : Int) * (difficultyWindow + 1)) = some 8190 := by
    decide
  have doubling : checkedI64 (8190 * targetBlockTimeSecs) = some 122850 := by decide
  rw [nextDifficulty_of_steps (Nat.not_lt.mpr long) window lows highs loop pairing doubling,
    ← averageDifficulty]
  exact clamp_retarget average _ _

/-! ## What holds of the new difficulty -/

/-- Only the entries in the window count. -/
theorem nextDifficulty_congr {other : List (UInt64 × UInt64)}
    (same : retargetWindow other = retargetWindow history) :
    nextDifficulty other initial minDifficulty = nextDifficulty history initial minDifficulty := by
  have lengths := congrArg List.length same
  rw [retargetWindow, retargetWindow, List.length_drop, List.length_drop] at lengths
  have short : other.length < difficultyWindow + 1 ↔ history.length < difficultyWindow + 1 := by
    omega
  simp only [nextDifficulty, same, short]

/-- A later last timestamp does not lower the weighted solve times. -/
theorem weighted_mono {front : List UInt64} {index : Nat} {previous last later : UInt64}
    (previousSmall : previous.toNat < 2 ^ 63) (small : ∀ time ∈ front, time.toNat < 2 ^ 63)
    (laterSmall : later.toNat < 2 ^ 63) (le : last ≤ later) :
    weighted index previous (front ++ [last]) ≤ weighted index previous (front ++ [later]) := by
  induction front generalizing index previous with
  | nil =>
      have longer := solvetime_mono previousSmall laterSmall le
      simpa [weighted] using Int.mul_le_mul_of_nonneg_right longer (Int.natCast_nonneg index)
  | cons current rest ih =>
      have later := @ih (index + 1) current (small current List.mem_cons_self)
        (fun time member => small time (List.mem_cons_of_mem _ member))
      rw [List.cons_append, List.cons_append, weighted, weighted]
      exact Int.add_le_add_left later _

theorem windowWeight_mono {front : List (UInt64 × UInt64)} {last later difficulty : UInt64}
    (nonempty : front ≠ []) (small : SmallTimes front) (laterSmall : later.toNat < 2 ^ 63)
    (le : last ≤ later) :
    windowWeight (front ++ [(last, difficulty)]) ≤ windowWeight (front ++ [(later, difficulty)]) := by
  cases front with
  | nil => exact absurd rfl nonempty
  | cons first rest =>
      rw [List.cons_append, List.cons_append, windowWeight, windowWeight, List.map_append,
        List.map_append]
      refine weighted_mono (small first List.mem_cons_self) ?_ laterSmall le
      intro time member
      obtain ⟨entry, inside, rfl⟩ := List.mem_map.mp member
      exact small entry (List.mem_cons_of_mem _ inside)

/-- Replacing the last entry replaces the last entry of the window. -/
theorem retargetWindow_concat {front : List (UInt64 × UInt64)}
    (long : difficultyWindow ≤ front.length) (last : UInt64 × UInt64) :
    retargetWindow (front ++ [last]) = front.drop (front.length - difficultyWindow) ++ [last] := by
  rw [retargetWindow, List.length_append, List.length_singleton,
    List.drop_append_of_le_length (by omega), Nat.add_sub_add_right]

theorem difficultySum_concat {front : List (UInt64 × UInt64)}
    (long : difficultyWindow ≤ front.length) (last later difficulty : UInt64) :
    difficultySum (front ++ [(later, difficulty)]) =
      difficultySum (front ++ [(last, difficulty)]) := by
  have nonempty : front.drop (front.length - difficultyWindow) ≠ [] := by
    have length := List.length_drop (l := front) (i := front.length - difficultyWindow)
    have positive : 0 < difficultyWindow := by decide
    exact List.ne_nil_of_length_pos (by omega)
  rw [difficultySum, difficultySum, retargetWindow_concat long, retargetWindow_concat long,
    List.tail_append_of_ne_nil nonempty, List.tail_append_of_ne_nil nonempty, List.map_append,
    List.map_append]
  rfl

/-- A longer last interval does not raise the difficulty. -/
theorem nextDifficulty_antitone {front : List (UInt64 × UInt64)} {last later difficulty : UInt64}
    (small : SmallTimes (front ++ [(last, difficulty)])) (laterSmall : later.toNat < 2 ^ 63)
    (le : last ≤ later) {next : UInt64}
    (returned : nextDifficulty (front ++ [(last, difficulty)]) initial minDifficulty = some next) :
    ∃ lower, nextDifficulty (front ++ [(later, difficulty)]) initial minDifficulty = some lower ∧
      lower ≤ next := by
  have frontSmall : SmallTimes front := fun entry member =>
    small entry (List.mem_append_left _ member)
  have laterTimes : SmallTimes (front ++ [(later, difficulty)]) := by
    intro entry member
    rcases List.mem_append.mp member with inside | inside
    · exact frontSmall entry inside
    · exact List.mem_singleton.mp inside ▸ laterSmall
  by_cases long : difficultyWindow ≤ front.length
  · have full (time : UInt64) : difficultyWindow + 1 ≤ (front ++ [(time, difficulty)]).length := by
      rw [List.length_append, List.length_singleton]
      omega
    have average : averageDifficulty (front ++ [(later, difficulty)]) =
        averageDifficulty (front ++ [(last, difficulty)]) := by
      rw [averageDifficulty, averageDifficulty, difficultySum_concat long last later]
    rw [nextDifficulty_of_long small (full last)] at returned
    rw [nextDifficulty_of_long laterTimes (full later), average]
    split at returned
    · cases returned
    · next positive =>
        rw [if_neg positive]
        obtain rfl := Option.some.inj returned
        refine ⟨_, rfl, ?_⟩
        have nonempty : front.drop (front.length - difficultyWindow) ≠ [] := by
          have length := List.length_drop (l := front) (i := front.length - difficultyWindow)
          have positive : 0 < difficultyWindow := by decide
          exact List.ne_nil_of_length_pos (by omega)
        have slower := @windowWeight_mono _ last later difficulty nonempty
          (fun entry member => frontSmall entry (List.mem_of_mem_drop member)) laterSmall le
        rw [← retargetWindow_concat long, ← retargetWindow_concat long] at slower
        have lower := retarget_antitone
          (averageDifficulty (front ++ [(last, difficulty)])) slower
        rw [UInt64.le_iff_toNat_le, toNat_floored, toNat_floored]
        exact max_le_max_right _ (min_le_min_right _ lower)
  · have short (time : UInt64) : (front ++ [(time, difficulty)]).length < difficultyWindow + 1 := by
      rw [List.length_append, List.length_singleton]
      omega
    rw [nextDifficulty_of_short (short last)] at returned
    rw [nextDifficulty_of_short (short later)]
    exact ⟨next, returned, UInt64.le_refl next⟩

/-- The retarget returns a difficulty between half and twice the average of the window and
above the floor, which only the window decides and which a later last timestamp does not
raise, exactly if the history is short or the average is not zero. -/
theorem retarget_sound_iff (small : SmallTimes history) :
    (∃ next, nextDifficulty history initial minDifficulty = some next ∧
      minDifficulty ≤ next ∧
      (difficultyWindow + 1 ≤ history.length →
        averageDifficulty history / 2 ≤ next.toNat ∧
          next.toNat ≤ max minDifficulty.toNat (2 * averageDifficulty history)) ∧
      (∀ other, retargetWindow other = retargetWindow history →
        nextDifficulty other initial minDifficulty = some next) ∧
      ∀ front last later difficulty, history = front ++ [(last, difficulty)] → last ≤ later →
        later.toNat < 2 ^ 63 →
        ∃ lower, nextDifficulty (front ++ [(later, difficulty)]) initial minDifficulty =
            some lower ∧ lower ≤ next) ↔
      history.length < difficultyWindow + 1 ∨ difficultyWindow ≤ difficultySum history := by
  have positive_iff : averageDifficulty history ≠ 0 ↔ difficultyWindow ≤ difficultySum history := by
    rw [averageDifficulty, Nat.ne_zero_iff_zero_lt, Nat.div_pos_iff]
    exact ⟨fun both => both.2, fun enough => ⟨by decide, enough⟩⟩
  have rest {next : UInt64}
      (returned : nextDifficulty history initial minDifficulty = some next) :
      (∀ other, retargetWindow other = retargetWindow history →
        nextDifficulty other initial minDifficulty = some next) ∧
      ∀ front last later difficulty, history = front ++ [(last, difficulty)] → last ≤ later →
        later.toNat < 2 ^ 63 →
        ∃ lower, nextDifficulty (front ++ [(later, difficulty)]) initial minDifficulty =
            some lower ∧ lower ≤ next := by
    constructor
    · intro other same
      rw [nextDifficulty_congr same, returned]
    · rintro front last later difficulty rfl le laterSmall
      exact nextDifficulty_antitone small laterSmall le returned
  constructor
  · rintro ⟨next, returned, _⟩
    by_cases long : difficultyWindow + 1 ≤ history.length
    · rw [nextDifficulty_of_long small long] at returned
      split at returned
      · cases returned
      · next positive => exact .inr (positive_iff.mp positive)
    · exact .inl (Nat.not_le.mp long)
  · intro condition
    by_cases short : history.length < difficultyWindow + 1
    · have returned : nextDifficulty history initial minDifficulty =
          some (max initial minDifficulty) := nextDifficulty_of_short short
      have floor : minDifficulty ≤ max initial minDifficulty := by
        rw [UInt64.max_def]
        split
        · exact UInt64.le_refl _
        · next above => exact UInt64.le_of_lt (UInt64.not_le.mp above)
      exact ⟨_, returned, floor, fun long => absurd short (Nat.not_lt.mpr long),
        rest returned⟩
    · have long := Nat.not_lt.mp short
      have positive := positive_iff.mpr (condition.resolve_left short)
      have returned : nextDifficulty history initial minDifficulty = _ :=
        nextDifficulty_of_long small long
      rw [if_neg positive] at returned
      refine ⟨_, returned, ?_, fun _ => ?_, rest returned⟩
      · rw [UInt64.le_iff_toNat_le, toNat_floored]
        exact le_max_right _ _
      have average := averageDifficulty_lt long
      have lower := le_retarget (averageDifficulty history) (windowWeight (retargetWindow history))
      have upper := retarget_le (Nat.pos_of_ne_zero positive)
        (windowWeight (retargetWindow history))
      rw [toNat_floored]
      omega

/-- A window whose blocks all have difficulty zero stops the code. -/
theorem nextDifficulty_zero :
    ¬∃ next, nextDifficulty (List.replicate 91 (0, 0)) 1 1 = some next := by
  have small : SmallTimes (List.replicate 91 (0, 0)) := by
    intro entry member
    rw [(List.mem_replicate.mp member).2]
    decide
  have zero : averageDifficulty (List.replicate 91 (0, 0)) = 0 := by decide
  rw [nextDifficulty_of_long small (by decide), if_pos zero]
  rintro ⟨next, returned⟩
  cases returned

/-- A window of blocks with equal timestamps and a fixed difficulty. -/
theorem nextDifficulty_steady :
    ∃ next, nextDifficulty (List.replicate 91 (0, 60)) 1 1 = some next ∧ 1 ≤ next := by
  have small : SmallTimes (List.replicate 91 (0, 60)) := by
    intro entry member
    rw [(List.mem_replicate.mp member).2]
    decide
  have enough : difficultyWindow ≤ difficultySum (List.replicate 91 (0, 60)) := by decide
  obtain ⟨next, returned, above, _⟩ := (@retarget_sound_iff _ 1 1 small).mpr (.inr enough)
  exact ⟨next, returned, above⟩

end Nightfall
