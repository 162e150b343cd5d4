import Nightfall.Ledger.Merging
import Nightfall.Ledger.State

/-!
# The two balances as sums

The value balance and the key balance say that a sum of points vanishes, up to how often
the fee and the reward totals wrap around.  The sums of an aggregate are the sums over its
transactions, so balanced transactions give balanced bodies.
-/

namespace Nightfall

variable {P : Primitives}

/-! ## Wrapping totals -/

/-- The amounts as whole numbers. -/
def exactTotal (amounts : List UInt64) : Nat :=
  (amounts.map UInt64.toNat).sum

/-- How often the total of the amounts wraps around. -/
def wraps (amounts : List UInt64) : Nat :=
  exactTotal amounts / 2 ^ 64

theorem toNat_sum (amounts : List UInt64) :
    (amounts.sum).toNat = exactTotal amounts % 2 ^ 64 := by
  induction amounts with
  | nil => rfl
  | cons amount rest ih =>
      rw [List.sum_cons, UInt64.toNat_add, ih, exactTotal, exactTotal, List.map_cons, List.sum_cons]
      exact Nat.add_mod_mod _ _ _

/-- The total as a point is the exact one without its wraps. -/
theorem commitPublicValue_sum (amounts : List UInt64) :
    commitPublicValue P amounts.sum =
      (exactTotal amounts : ℤ) • P.generatorG -
        (2 ^ 64 * wraps amounts : ℤ) • P.generatorG := by
  have split := Nat.div_add_mod (exactTotal amounts) (2 ^ 64)
  rw [commitPublicValue_eq_zsmul, toNat_sum, ← sub_smul]
  congr 1
  rw [wraps]
  omega

theorem exactTotal_append (left right : List UInt64) :
    exactTotal (left ++ right) = exactTotal left + exactTotal right := by
  simp [exactTotal]

theorem exactTotal_lt (amounts : List UInt64) (nonempty : amounts ≠ []) :
    exactTotal amounts < amounts.length * 2 ^ 64 := by
  induction amounts with
  | nil => contradiction
  | cons amount rest ih =>
      have bound := amount.toNat_lt
      have step : exactTotal (amount :: rest) = amount.toNat + exactTotal rest := by
        simp [exactTotal]
      cases rest with
      | nil => simp [exactTotal, bound]
      | cons next others =>
          have others := ih (by simp)
          rw [List.length_cons, Nat.add_mul]
          omega

/-- Fewer amounts than the group has elements wrap around to a point other than zero. -/
theorem zsmul_wraps_eq_zero {count : ℤ} (few : |count| < 2 ^ 64) :
    (2 ^ 64 * count) • P.generatorG = 0 ↔ count = 0 := by
  constructor
  · intro vanishes
    rw [← Int.cast_smul_eq_zsmul P.Scalar, smul_eq_zero] at vanishes
    have scalar : ((2 ^ 64 * count : ℤ) : P.Scalar) = 0 :=
      vanishes.resolve_right P.generatorG_ne_zero
    have large : (2 ^ 64 : ℤ) < P.order := by exact_mod_cast P.order_large
    rw [Int.cast_mul, mul_eq_zero] at scalar
    rcases scalar with power | counted
    · have two : (2 : P.Scalar) = 0 := by
        have cast : (2 : P.Scalar) ^ 64 = 0 := by exact_mod_cast power
        exact pow_eq_zero_iff (by norm_num) |>.mp cast
      have divides : (P.order : ℤ) ∣ 2 :=
        (ZMod.intCast_zmod_eq_zero_iff_dvd 2 P.order).mp (by exact_mod_cast two)
      have small := Int.le_of_dvd (by norm_num) divides
      omega
    · have divides := (ZMod.intCast_zmod_eq_zero_iff_dvd count P.order).mp counted
      exact Int.eq_zero_of_abs_lt_dvd divides (by omega)
  · rintro rfl
    simp

/-! ## Balances of a flat set -/

/-- The offset is absent or a canonical scalar. -/
def OffsetDecodes (P : Primitives) (offset : Option Bytes32) : Prop :=
  ∀ bytes, offset = some bytes → (P.scalarFromBytes bytes).isSome

theorem decodeOffset_eq_ok {offset : Option Bytes32} {scalar : P.Scalar} :
    decodeOffset P offset = .ok scalar ↔
      OffsetDecodes P offset ∧ offsetScalar P offset = scalar := by
  cases offset with
  | none => simp [decodeOffset, OffsetDecodes]
  | some bytes =>
      simp only [decodeOffset, OffsetDecodes, Guard.need_eq_ok, offsetScalar, Option.bind_some,
        Option.some.injEq, forall_eq']
      cases P.scalarFromBytes bytes <;> simp

theorem offsetDecodes_toBytes (scalar : P.Scalar) :
    OffsetDecodes P (some (P.scalarToBytes scalar)) := by
  rintro bytes ⟨⟩
  simp [P.scalarFromBytes_toBytes]

theorem offsetDecodes_offsetTotal (offsets : List (Option Bytes32)) :
    OffsetDecodes P (offsetTotal P offsets) := by
  unfold offsetTotal
  split
  · exact offsetDecodes_toBytes _
  · rintro _ ⟨⟩

/-- The sets and offsets of one transaction. -/
def Transaction.contents (tx : Transaction) : BlockBody where
  inputs := tx.inputs
  outputs := tx.outputs
  kernels := tx.kernels
  stealthOffset := tx.stealthOffset
  kernelOffset := tx.kernelOffset

namespace BlockBody

def fees (body : BlockBody) : List UInt64 :=
  body.kernels.map TxKernel.feeDarks

def rewards (body : BlockBody) : List UInt64 :=
  body.kernels.map TxKernel.rewardDarks

variable (P) in
/-- What the value balance leaves over when the amounts are summed exactly. -/
def surplus (body : BlockBody) : P.Point :=
  (body.outputCommits.map (Commitment.pointOrZero P)).sum -
    (body.inputCommits.map (Commitment.pointOrZero P)).sum +
    (exactTotal body.fees : ℤ) • P.generatorG - (exactTotal body.rewards : ℤ) • P.generatorG -
    ((body.excesses.map (Commitment.pointOrZero P)).sum +
      offsetScalar P body.kernelOffset • P.generatorH)

variable (P) in
/-- What the key balance leaves over. -/
def keySurplus (body : BlockBody) : P.Point :=
  (body.inputs.map fun input => Guard.valueOrZero (inputKeyPoint P input)).sum -
    (body.outputs.map fun output => Guard.valueOrZero (ephemeralPoint P output)).sum -
    (offsetScalar P body.stealthOffset • P.generatorG +
      (body.kernels.map fun kernel => Guard.valueOrZero (stealthExcessPoint P kernel)).sum)

/-- How often the fee total wraps around, less how often the reward total does. -/
def wrapped (body : BlockBody) : ℤ :=
  (wraps body.fees : ℤ) - wraps body.rewards

variable (P) in
/-- Every commitment, excess and offset of the value balance decodes. -/
structure Decodes (body : BlockBody) : Prop where
  inputs : ∀ commit ∈ body.inputCommits, (Commitment.point P commit).isSome
  outputs : ∀ commit ∈ body.outputCommits, (Commitment.point P commit).isSome
  kernels : ∀ excess ∈ body.excesses, (Commitment.point P excess).isSome
  offset : OffsetDecodes P body.kernelOffset

variable (P) in
/-- Every key of the key balance is present and valid. -/
structure KeysDecode (body : BlockBody) : Prop where
  inputs : ∀ input ∈ body.inputs, (inputKeyPoint P input).isOk
  outputs : ∀ output ∈ body.outputs, (ephemeralPoint P output).isOk
  kernels : ∀ kernel ∈ body.kernels, (stealthExcessPoint P kernel).isOk
  offset : OffsetDecodes P body.stealthOffset

/-- The expected excess is the sum of the excesses where the surplus only consists of
wraps. -/
theorem balanced_iff (body : BlockBody) {expected : P.Point}
    (expected_eq : expectedExcess P body.inputCommits body.outputCommits body.fees.sum
      body.rewards.sum = some expected) :
    expected = (body.excesses.map (Commitment.pointOrZero P)).sum +
        offsetScalar P body.kernelOffset • P.generatorH ↔
      body.surplus P = (2 ^ 64 * body.wrapped) • P.generatorG := by
  simp only [expectedExcess, Option.bind_eq_bind, Option.bind_eq_some_iff, Option.some.injEq,
    Commitment.sum_eq_some] at expected_eq
  obtain ⟨_, ⟨_, rfl⟩, _, ⟨_, rfl⟩, rfl⟩ := expected_eq
  rw [← sub_eq_zero, commitPublicValue_sum, commitPublicValue_sum, ← sub_eq_zero (a := surplus P body),
    surplus, wrapped, mul_sub, sub_smul]
  constructor <;> intro vanishes
  · rw [← vanishes]
    abel
  · rw [← vanishes]
    abel

theorem expectedExcess_isSome (body : BlockBody) (fees rewards : UInt64) :
    (∃ expected, expectedExcess P body.inputCommits body.outputCommits fees rewards =
        some expected) ↔
      (∀ commit ∈ body.inputCommits, (Commitment.point P commit).isSome) ∧
        ∀ commit ∈ body.outputCommits, (Commitment.point P commit).isSome := by
  simp only [expectedExcess, Option.bind_eq_bind, Option.bind_eq_some_iff, Commitment.sum_eq_some]
  constructor
  · rintro ⟨_, _, ⟨outputs, _⟩, _, ⟨inputs, _⟩, _⟩
    exact ⟨inputs, outputs⟩
  · rintro ⟨inputs, outputs⟩
    exact ⟨_, _, ⟨outputs, rfl⟩, _, ⟨inputs, rfl⟩, rfl⟩

theorem totalFee_eq (body : BlockBody) : body.totalFee = body.fees.sum :=
  wrappingFeeSum_eq_sum body.kernels

/-- The value balance of a block. -/
theorem checkBalance_eq_ok {body : BlockBody} :
    (∃ offset, LedgerState.checkBalance P body = .ok offset) ↔
      body.Decodes P ∧ body.surplus P = (2 ^ 64 * body.wrapped) • P.generatorG := by
  simp only [LedgerState.checkBalance, Guard.bind_eq_ok, Guard.need_eq_ok, Guard.refuse_eq_ok,
    not_not, kernelExcessSum, Option.map_eq_some_iff, Commitment.sum_eq_some, offsetPointH,
    Guard.mapError_eq_ok, decodeOffset_eq_ok, Except.ok.injEq, totalFee_eq]
  constructor
  · rintro ⟨_, expected, found, _, ⟨_, ⟨kernels, rfl⟩, rfl⟩, _, ⟨_, ⟨offset, rfl⟩, rfl⟩, _, point,
      _, equal, rfl⟩
    obtain ⟨inputs, outputs⟩ := (expectedExcess_isSome body _ _).mp ⟨_, found⟩
    rw [Commitment.point_fromPoint] at point
    obtain rfl := Option.some.inj point
    exact ⟨⟨inputs, outputs, kernels, offset⟩, (body.balanced_iff found).mp equal⟩
  · rintro ⟨decodes, balanced⟩
    obtain ⟨expected, found⟩ := (expectedExcess_isSome body body.fees.sum body.rewards.sum).mpr
      ⟨decodes.inputs, decodes.outputs⟩
    exact ⟨_, expected, found, _, ⟨_, ⟨decodes.kernels, rfl⟩, rfl⟩, _,
      ⟨_, ⟨decodes.offset, rfl⟩, rfl⟩, _, Commitment.point_fromPoint P _, (),
      (body.balanced_iff found).mpr balanced, rfl⟩

/-- The key balance. -/
theorem keyBalance_eq_ok {body : BlockBody} :
    keyBalance P body.inputs body.outputs body.kernels body.stealthOffset = .ok () ↔
      body.KeysDecode P ∧ body.keySurplus P = 0 := by
  simp only [keyBalance, Guard.bind_eq_ok, Guard.total_eq_ok, decodeOffset_eq_ok,
    Guard.refuse_eq_ok, not_not]
  constructor
  · rintro ⟨_, ⟨inputs, rfl⟩, _, ⟨outputs, rfl⟩, _, ⟨offset, rfl⟩, _, ⟨kernels, rfl⟩, balanced⟩
    exact ⟨⟨inputs, outputs, kernels, offset⟩, sub_eq_zero.mpr balanced⟩
  · rintro ⟨decode, balanced⟩
    exact ⟨_, ⟨decode.inputs, rfl⟩, _, ⟨decode.outputs, rfl⟩, _, ⟨decode.offset, rfl⟩, _,
      ⟨decode.kernels, rfl⟩, sub_eq_zero.mp balanced⟩

end BlockBody

/-- The proofs, the signatures and the value balance of a transaction. -/
theorem Transaction.verifyValueBalance_eq_ok {tx : Transaction} {ctx : Bytes} :
    tx.verifyValueBalance P ctx = .ok () ↔
      (∀ output ∈ tx.outputs, P.rangeVerify output.rangeProof output.commit ctx = true ∧
        output.verifySenderSig P = true) ∧
      (∀ kernel ∈ tx.kernels, kernel.verifySignature P = true) ∧
      tx.contents.Decodes P ∧
      tx.contents.surplus P = (2 ^ 64 * tx.contents.wrapped) • P.generatorG := by
  simp only [Transaction.verifyValueBalance, Guard.bind_eq_ok, Guard.each_eq_ok, Guard.need_eq_ok,
    Guard.refuse_eq_ok, not_not, Commitment.sum_eq_some, offsetPointH, decodeOffset_eq_ok,
    Except.ok.injEq, Transaction.totalFee, wrappingFeeSum_eq_sum]
  constructor
  · rintro ⟨_, outputs, _, kernels, expected, found, _, ⟨excesses, rfl⟩, _, ⟨_, ⟨offset, rfl⟩, rfl⟩,
      equal⟩
    obtain ⟨inputs, commits⟩ := (tx.contents.expectedExcess_isSome _ _).mp ⟨_, found⟩
    refine ⟨fun output member => ?_, kernels, ⟨inputs, commits, excesses, offset⟩,
      (tx.contents.balanced_iff found).mp equal⟩
    obtain ⟨_, proven, signed⟩ := outputs output member
    exact ⟨proven, signed⟩
  · rintro ⟨outputs, kernels, decodes, balanced⟩
    obtain ⟨expected, found⟩ := (tx.contents.expectedExcess_isSome tx.contents.fees.sum
      tx.contents.rewards.sum).mpr ⟨decodes.inputs, decodes.outputs⟩
    exact ⟨(), fun output member => ⟨(), outputs output member⟩, (), kernels, expected, found, _,
      ⟨decodes.kernels, rfl⟩, _, ⟨_, ⟨decodes.offset, rfl⟩, rfl⟩,
      (tx.contents.balanced_iff found).mpr balanced⟩

/-! ## Balances of an aggregate -/

namespace BlockBody

/-- The sum over a sorted union is the sum of the sums over its parts. -/
theorem sum_map_sort_flatMap {α κ A : Type*} [LE κ] [DecidableLE κ] [AddCommMonoid A] (key : α → κ)
    (value : α → A) (part : Transaction → List α) (txs : List Transaction) :
    ((SortByKey.sort key (txs.flatMap part)).map value).sum =
      (txs.map fun tx => ((part tx).map value).sum).sum := by
  have sorted := List.perm_insertionSort (fun left right => key left ≤ key right)
    (txs.flatMap part)
  rw [(sorted.map value).sum_eq]
  induction txs with
  | nil => rfl
  | cons tx rest ih =>
      rw [List.flatMap_cons, List.map_append, List.sum_append, List.map_cons, List.sum_cons,
        ih (List.perm_insertionSort _ _)]

theorem forall_mem_sort_flatMap {α κ : Type*} [LE κ] [DecidableLE κ] {key : α → κ}
    {holds : α → Prop} {part : Transaction → List α} {txs : List Transaction}
    (each : ∀ tx ∈ txs, ∀ element ∈ part tx, holds element) :
    ∀ element ∈ SortByKey.sort key (txs.flatMap part), holds element := by
  intro element member
  have inUnion := (List.perm_insertionSort _ _).mem_iff.mp member
  obtain ⟨tx, inTxs, inPart⟩ := List.mem_flatMap.mp inUnion
  exact each tx inTxs element inPart

theorem sum_map_sub {α A : Type*} [AddCommGroup A] (one other : α → A) (list : List α) :
    (list.map fun element => one element - other element).sum =
      (list.map one).sum - (list.map other).sum := by
  induction list with
  | nil => simp
  | cons head tail ih =>
      simp only [List.map_cons, List.sum_cons, ih]
      abel

variable (txs : List Transaction)

theorem exactTotal_fees_aggregate :
    exactTotal (aggregate P txs).fees =
      (txs.map fun tx => exactTotal tx.contents.fees).sum := by
  simp only [exactTotal, fees, aggregate_eq, List.map_map, Transaction.contents]
  exact sum_map_sort_flatMap _ _ _ txs

theorem exactTotal_rewards_aggregate :
    exactTotal (aggregate P txs).rewards =
      (txs.map fun tx => exactTotal tx.contents.rewards).sum := by
  simp only [exactTotal, rewards, aggregate_eq, List.map_map, Transaction.contents]
  exact sum_map_sort_flatMap _ _ _ txs

/-- The value surplus of an aggregate is the sum of those of its transactions. -/
theorem surplus_aggregate :
    (aggregate P txs).surplus P = (txs.map fun tx => tx.contents.surplus P).sum := by
  have offset : offsetScalar P (aggregate P txs).kernelOffset • P.generatorH =
      (txs.map fun tx => offsetScalar P tx.kernelOffset • P.generatorH).sum := by
    rw [aggregate_eq, offsetScalar_offsetTotal, List.map_map, List.sum_smul, List.map_map]
    rfl
  have amount (counted : Transaction → Nat) :
      (((txs.map counted).sum : Nat) : ℤ) • P.generatorG =
        (txs.map fun tx => (counted tx : ℤ) • P.generatorG).sum := by
    rw [Nat.cast_list_sum, List.sum_smul, List.map_map, List.map_map]
    rfl
  simp only [surplus]
  rw [offset, exactTotal_fees_aggregate, exactTotal_rewards_aggregate, amount, amount]
  simp only [inputCommits, outputCommits, excesses, aggregate_eq, List.map_map,
    sum_map_sort_flatMap, Transaction.contents, sum_map_sub, List.sum_map_add]

/-- The key surplus of an aggregate is the sum of those of its transactions. -/
theorem keySurplus_aggregate :
    (aggregate P txs).keySurplus P = (txs.map fun tx => tx.contents.keySurplus P).sum := by
  have offset : offsetScalar P (aggregate P txs).stealthOffset • P.generatorG =
      (txs.map fun tx => offsetScalar P tx.stealthOffset • P.generatorG).sum := by
    rw [aggregate_eq, offsetScalar_offsetTotal, List.map_map, List.sum_smul, List.map_map]
    rfl
  simp only [keySurplus]
  rw [offset]
  simp only [aggregate_eq, sum_map_sort_flatMap, Transaction.contents, sum_map_sub,
    List.sum_map_add]

theorem decodes_aggregate (each : ∀ tx ∈ txs, tx.contents.Decodes P) :
    (aggregate P txs).Decodes P where
  inputs := by
    rw [aggregate_eq]
    refine List.forall_mem_map.mpr (forall_mem_sort_flatMap fun tx member => ?_)
    exact List.forall_mem_map.mp (each tx member).inputs
  outputs := by
    rw [aggregate_eq]
    refine List.forall_mem_map.mpr (forall_mem_sort_flatMap fun tx member => ?_)
    exact List.forall_mem_map.mp (each tx member).outputs
  kernels := by
    rw [aggregate_eq]
    refine List.forall_mem_map.mpr (forall_mem_sort_flatMap fun tx member => ?_)
    exact List.forall_mem_map.mp (each tx member).kernels
  offset := by
    rw [aggregate_eq]
    exact offsetDecodes_offsetTotal _

theorem keysDecode_aggregate (each : ∀ tx ∈ txs, tx.contents.KeysDecode P) :
    (aggregate P txs).KeysDecode P where
  inputs := by
    rw [aggregate_eq]
    exact forall_mem_sort_flatMap fun tx member => (each tx member).inputs
  outputs := by
    rw [aggregate_eq]
    exact forall_mem_sort_flatMap fun tx member => (each tx member).outputs
  kernels := by
    rw [aggregate_eq]
    exact forall_mem_sort_flatMap fun tx member => (each tx member).kernels
  offset := by
    rw [aggregate_eq]
    exact offsetDecodes_offsetTotal _

end BlockBody

end Nightfall
