import Nightfall.Ledger.Balance
import Nightfall.Ledger.Supply

/-!
# Which admitted transactions share a block

Admission looks at one transaction at a time.  Behind a coinbase, admitted transactions make
a valid body exactly when no kernel is locked, no output is created twice, the sets are small
enough and the burned fees stay below what was minted.
-/

namespace Nightfall

variable {P : Primitives}

namespace LedgerState

/-- What admission says about a transaction, in the shape that it has inside a block. -/
structure Admitted (state : LedgerState P) (height : UInt64) (ctx : Bytes)
    (tx : Transaction) : Prop where
  plainOutputs : ∀ output ∈ tx.outputs, output.features.isCoinbase = false
  plainKernels : ∀ kernel ∈ tx.kernels, kernel.feature = .plain
  shapes : ∀ kernel ∈ tx.kernels, kernel.checkShape P = .ok ()
  signed : ∀ kernel ∈ tx.kernels, kernel.verifySignature P = true
  fees : ∀ kernel ∈ tx.kernels, kernel.feeDarks ≤ maxKernelFeeDarks
  outputs : ∀ output ∈ tx.outputs, checkOutput P ctx output = .ok ()
  fresh : ∀ output ∈ tx.outputs, state.utxos.get output.commit = none
  inputs : ∀ input ∈ tx.inputs,
    state.checkInput height (state.bindingActive height) input = .ok ()
  decodes : tx.contents.Decodes P
  surplus : tx.contents.surplus P = 0
  keys : state.bindingActive height = true →
    tx.contents.KeysDecode P ∧ tx.contents.keySurplus P = 0

/-- A coinbase in the shape that it has inside a block. -/
structure MinerPaid (state : LedgerState P) (height : UInt64) (ctx : Bytes)
    (reward : UInt64) (output : Output) (kernel : TxKernel) (tx : Transaction) : Prop where
  inputs : tx.inputs = []
  outputs : tx.outputs = [output]
  kernels : tx.kernels = [kernel]
  flagged : output.features = .coinbase
  checked : checkOutput P ctx output = .ok ()
  coinbase : kernel.feature = .coinbase
  free : kernel.feeDarks = 0
  claims : kernel.rewardDarks = reward
  pinned : kernel.lockHeight = height
  opens : ∃ opened, Commitment.point P output.commit = some opened ∧
    Commitment.point P kernel.excess = some (opened - commitPublicValue P reward)
  decodes : tx.contents.Decodes P
  surplus : tx.contents.surplus P = 0
  keys : state.bindingActive height = true →
    tx.contents.KeysDecode P ∧ tx.contents.keySurplus P = 0

/-- What no check of a single transaction sees. -/
structure Mineable (state : LedgerState P) (height subsidy : UInt64)
    (txs : List Transaction) : Prop where
  unlocked : ∀ tx ∈ txs, ∀ kernel ∈ tx.kernels, kernel.lockHeight ≤ height
  created : ((txs.flatMap Transaction.outputs).map Output.commit).Nodup
  fresh : ∀ output ∈ txs.flatMap Transaction.outputs, state.utxos.get output.commit = none
  inputsFit : (txs.flatMap Transaction.inputs).length ≤ maxBlockInputs
  outputsFit : (txs.flatMap Transaction.outputs).length ≤ maxBlockOutputs
  kernelsFit : (txs.flatMap Transaction.kernels).length ≤ maxBlockKernels
  burned : subsidy > 0 → state.supply.totalBurnedDarks.toNat +
      (txs.map fun tx => exactTotal tx.contents.fees).sum ≤
    state.supply.totalMintedDarks.toNat + subsidy.toNat

end LedgerState

/-! ## The sets of an aggregate -/

namespace BlockBody

variable (txs : List Transaction)

theorem inputs_aggregate_perm :
    (aggregate P txs).inputs.Perm (txs.flatMap Transaction.inputs) := by
  rw [aggregate_eq]
  exact List.perm_insertionSort _ _

theorem outputs_aggregate_perm :
    (aggregate P txs).outputs.Perm (txs.flatMap Transaction.outputs) := by
  rw [aggregate_eq]
  exact List.perm_insertionSort _ _

theorem kernels_aggregate_perm :
    (aggregate P txs).kernels.Perm (txs.flatMap Transaction.kernels) := by
  rw [aggregate_eq]
  exact List.perm_insertionSort _ _

theorem isCanonical_aggregate : (aggregate P txs).isCanonical P = true := by
  rw [isCanonical, decide_eq_true_eq, aggregate, canonicalise_canonicalise]

theorem exceedsSizeLimits_aggregate :
    (aggregate P txs).exceedsSizeLimits = false ↔
      (txs.flatMap Transaction.inputs).length ≤ maxBlockInputs ∧
      (txs.flatMap Transaction.outputs).length ≤ maxBlockOutputs ∧
      (txs.flatMap Transaction.kernels).length ≤ maxBlockKernels := by
  simp [exceedsSizeLimits, (inputs_aggregate_perm txs).length_eq,
    (outputs_aggregate_perm txs).length_eq, (kernels_aggregate_perm txs).length_eq, and_assoc]

theorem toNat_totalFee {body : BlockBody} (fits : exactTotal body.fees < 2 ^ 64) :
    body.totalFee.toNat = exactTotal body.fees := by
  rw [totalFee_eq, toNat_sum, Nat.mod_eq_of_lt fits]

/-- The checked fee sum of a body is its plain one unless something overflows. -/
theorem checkedFeeSum_kernels {body : BlockBody}
    (bounded : ∀ kernel ∈ body.kernels, kernel.feeDarks ≤ maxKernelFeeDarks)
    (fits : exactTotal body.fees < 2 ^ 64) : checkedFeeSum body.kernels = some body.totalFee := by
  refine checkedFeeSum_eq_some.mpr ⟨bounded, ?_⟩
  rw [toNat_totalFee fits, exactTotal, fees, List.map_map]
  rfl

/-- The fees of a body with few kernels do not overflow. -/
theorem fees_lt_of_few {kernels : List TxKernel} (few : kernels.length ≤ maxBlockKernels)
    (bounded : ∀ kernel ∈ kernels, kernel.feeDarks ≤ maxKernelFeeDarks) :
    exactTotal (kernels.map TxKernel.feeDarks) < 2 ^ 64 := by
  have each : ∀ fee ∈ (kernels.map TxKernel.feeDarks).map UInt64.toNat,
      fee ≤ maxKernelFeeDarks.toNat := by
    intro fee member
    rw [List.map_map, List.mem_map] at member
    obtain ⟨kernel, inKernels, rfl⟩ := member
    exact UInt64.le_iff_toNat_le.mp (bounded kernel inKernels)
  have total := List.sum_le_card_nsmul _ _ each
  rw [List.length_map, List.length_map, smul_eq_mul] at total
  have cap : maxKernelFeeDarks.toNat = 9000000000000000 := rfl
  rw [cap] at total
  simp only [maxBlockKernels] at few
  unfold exactTotal
  omega

end BlockBody

namespace LedgerState

/-- A kernel that is not a coinbase claims no reward. -/
theorem exactTotal_rewards_of_plain {tx : Transaction}
    (plain : ∀ kernel ∈ tx.kernels, kernel.feature = .plain)
    (shapes : ∀ kernel ∈ tx.kernels, kernel.checkShape P = .ok ()) :
    exactTotal tx.contents.rewards = 0 := by
  apply List.sum_eq_zero
  simp only [BlockBody.rewards, Transaction.contents, List.map_map, List.mem_map,
    Function.comp_apply]
  rintro _ ⟨kernel, member, rfl⟩
  have shape := shapes kernel member
  simp only [TxKernel.checkShape, plain kernel member, Guard.bind_eq_ok, Guard.refuse_eq_ok,
    not_not] at shape
  obtain ⟨_, none, _⟩ := shape
  rw [none]
  rfl

section Together

variable {state : LedgerState P} {height subsidy reward : UInt64} {ctx : Bytes}
  {output : Output} {kernel : TxKernel} {coinbase : Transaction} {txs : List Transaction}

/-- The coinbase kernel is the only one of its kind. -/
theorem MinerPaid.kernel_found (paid : state.MinerPaid height ctx reward output kernel coinbase)
    (admitted : ∀ tx ∈ txs, state.Admitted height ctx tx) :
    (BlockBody.aggregate P (coinbase :: txs)).coinbaseKernels = 1 ∧
      (BlockBody.aggregate P (coinbase :: txs)).kernels.find? isCoinbaseKernel = some kernel := by
  have set := BlockBody.kernels_aggregate_perm (P := P) (coinbase :: txs)
  rw [List.flatMap_cons, paid.kernels, List.singleton_append] at set
  have isCoinbase : isCoinbaseKernel kernel = true := by simp [isCoinbaseKernel, paid.coinbase]
  have others : ∀ other ∈ txs.flatMap Transaction.kernels, ¬isCoinbaseKernel other = true := by
    intro other member
    obtain ⟨tx, listed, inside⟩ := List.mem_flatMap.mp member
    simp [isCoinbaseKernel, (admitted tx listed).plainKernels other inside]
  have one : (BlockBody.aggregate P (coinbase :: txs)).coinbaseKernels = 1 := by
    rw [BlockBody.coinbaseKernels, set.countP_eq, List.countP_cons, if_pos isCoinbase,
      List.countP_eq_zero.mpr others]
  refine ⟨one, ?_⟩
  cases found : (BlockBody.aggregate P (coinbase :: txs)).kernels.find? isCoinbaseKernel with
  | none =>
      exact absurd isCoinbase (List.find?_eq_none.mp found kernel
        (set.mem_iff.mpr List.mem_cons_self))
  | some other =>
      rcases List.mem_cons.mp (set.mem_iff.mp (List.mem_of_find?_eq_some found)) with same | later
      · rw [same]
      · exact absurd (List.find?_some found) (others other later)

/-- The coinbase output is the only one of its kind and opens to the reward. -/
theorem MinerPaid.output_opens (paid : state.MinerPaid height ctx reward output kernel coinbase)
    (admitted : ∀ tx ∈ txs, state.Admitted height ctx tx) (binding : Bool) :
    checkCoinbaseOutput P (BlockBody.aggregate P (coinbase :: txs)) kernel binding = .ok () := by
  have set := BlockBody.outputs_aggregate_perm (P := P) (coinbase :: txs)
  rw [List.flatMap_cons, paid.outputs, List.singleton_append] at set
  have isCoinbase : output.features.isCoinbase = true := by
    rw [paid.flagged]
    rfl
  have others : ∀ other ∈ txs.flatMap Transaction.outputs,
      ¬other.features.isCoinbase = true := by
    intro other member
    obtain ⟨tx, listed, inside⟩ := List.mem_flatMap.mp member
    rw [(admitted tx listed).plainOutputs other inside]
    exact Bool.false_ne_true
  have count : (BlockBody.aggregate P (coinbase :: txs)).outputs.countP
      (fun output => output.features.isCoinbase) = 1 := by
    rw [set.countP_eq, List.countP_cons, if_pos isCoinbase, List.countP_eq_zero.mpr others]
  have found : (BlockBody.aggregate P (coinbase :: txs)).outputs.find?
      (fun output => output.features.isCoinbase) = some output := by
    cases searched : (BlockBody.aggregate P (coinbase :: txs)).outputs.find?
        (fun output => output.features.isCoinbase) with
    | none =>
        exact absurd isCoinbase (List.find?_eq_none.mp searched output
          (set.mem_iff.mpr List.mem_cons_self))
    | some other =>
        rcases List.mem_cons.mp (set.mem_iff.mp (List.mem_of_find?_eq_some searched)) with
          same | later
        · rw [same]
        · have flagged := List.find?_some searched
          exact absurd flagged (others other later)
  obtain ⟨opened, decoded, excess⟩ := paid.opens
  simp only [checkCoinbaseOutput, Guard.bind_eq_ok, Guard.refuse_eq_ok, Guard.onlyIf_eq_ok,
    Guard.need_eq_ok, not_not, count, found, Option.bind_some, decoded]
  refine ⟨(), trivial, fun _ => ⟨opened, rfl, ?_⟩⟩
  rw [excess, paid.claims]

/-- The exact fees of the body are those of the transactions. -/
theorem MinerPaid.fees_eq (paid : state.MinerPaid height ctx reward output kernel coinbase) :
    exactTotal (BlockBody.aggregate P (coinbase :: txs)).fees =
      (txs.map fun tx => exactTotal tx.contents.fees).sum := by
  have none : exactTotal coinbase.contents.fees = 0 := by
    simp [exactTotal, BlockBody.fees, Transaction.contents, paid.kernels, paid.free]
  rw [BlockBody.exactTotal_fees_aggregate, List.map_cons, List.sum_cons, none, Nat.zero_add]

/-- Only the coinbase claims a reward. -/
theorem MinerPaid.rewards_eq (paid : state.MinerPaid height ctx reward output kernel coinbase)
    (admitted : ∀ tx ∈ txs, state.Admitted height ctx tx) :
    exactTotal (BlockBody.aggregate P (coinbase :: txs)).rewards = reward.toNat := by
  have claimed : exactTotal coinbase.contents.rewards = reward.toNat := by
    simp [exactTotal, BlockBody.rewards, Transaction.contents, paid.kernels, paid.claims]
  have others : (txs.map fun tx => exactTotal tx.contents.rewards).sum = 0 := by
    apply List.sum_eq_zero
    intro total member
    obtain ⟨tx, listed, rfl⟩ := List.mem_map.mp member
    exact exactTotal_rewards_of_plain (admitted tx listed).plainKernels (admitted tx listed).shapes
  rw [BlockBody.exactTotal_rewards_aggregate, List.map_cons, List.sum_cons, claimed, others,
    Nat.add_zero]

theorem MinerPaid.decodes_aggregate
    (paid : state.MinerPaid height ctx reward output kernel coinbase)
    (admitted : ∀ tx ∈ txs, state.Admitted height ctx tx) :
    (BlockBody.aggregate P (coinbase :: txs)).Decodes P := by
  apply BlockBody.decodes_aggregate
  intro tx listed
  rcases List.mem_cons.mp listed with rfl | other
  · exact paid.decodes
  · exact (admitted tx other).decodes

/-- Balanced transactions behind a coinbase leave nothing over. -/
theorem MinerPaid.surplus_eq (paid : state.MinerPaid height ctx reward output kernel coinbase)
    (admitted : ∀ tx ∈ txs, state.Admitted height ctx tx) :
    (BlockBody.aggregate P (coinbase :: txs)).surplus P = 0 := by
  rw [BlockBody.surplus_aggregate]
  apply List.sum_eq_zero
  intro point member
  obtain ⟨tx, listed, rfl⟩ := List.mem_map.mp member
  rcases List.mem_cons.mp listed with rfl | other
  · exact paid.surplus
  · exact (admitted tx other).surplus

theorem MinerPaid.keyBalance (paid : state.MinerPaid height ctx reward output kernel coinbase)
    (admitted : ∀ tx ∈ txs, state.Admitted height ctx tx)
    (active : state.bindingActive height = true) :
    Nightfall.keyBalance P (BlockBody.aggregate P (coinbase :: txs)).inputs
      (BlockBody.aggregate P (coinbase :: txs)).outputs
      (BlockBody.aggregate P (coinbase :: txs)).kernels
      (BlockBody.aggregate P (coinbase :: txs)).stealthOffset = .ok () := by
  have each : ∀ tx ∈ coinbase :: txs, tx.contents.KeysDecode P ∧ tx.contents.keySurplus P = 0 := by
    intro tx listed
    rcases List.mem_cons.mp listed with rfl | other
    · exact paid.keys active
    · exact (admitted tx other).keys active
  refine BlockBody.keyBalance_eq_ok.mpr
    ⟨BlockBody.keysDecode_aggregate _ fun tx listed => (each tx listed).1, ?_⟩
  rw [BlockBody.keySurplus_aggregate]
  apply List.sum_eq_zero
  intro point member
  obtain ⟨tx, listed, rfl⟩ := List.mem_map.mp member
  exact (each tx listed).2

/-- The fees of a body that is small enough do not overflow. -/
theorem MinerPaid.fees_lt (paid : state.MinerPaid height ctx reward output kernel coinbase)
    (admitted : ∀ tx ∈ txs, state.Admitted height ctx tx)
    (few : ((coinbase :: txs).flatMap Transaction.kernels).length ≤ maxBlockKernels) :
    (∀ other ∈ (BlockBody.aggregate P (coinbase :: txs)).kernels,
        other.feeDarks ≤ maxKernelFeeDarks) ∧
      exactTotal (BlockBody.aggregate P (coinbase :: txs)).fees < 2 ^ 64 := by
  have set := BlockBody.kernels_aggregate_perm (P := P) (coinbase :: txs)
  have bounded : ∀ other ∈ (BlockBody.aggregate P (coinbase :: txs)).kernels,
      other.feeDarks ≤ maxKernelFeeDarks := by
    intro other member
    obtain ⟨tx, listed, inside⟩ := List.mem_flatMap.mp (set.mem_iff.mp member)
    rcases List.mem_cons.mp listed with rfl | later
    · rw [paid.kernels, List.mem_singleton] at inside
      rw [inside, paid.free, UInt64.le_iff_toNat_le]
      exact Nat.zero_le _
    · exact (admitted tx later).fees other inside
  exact ⟨bounded, BlockBody.fees_lt_of_few (set.length_eq ▸ few) bounded⟩

/-- The value balance of the body. -/
theorem MinerPaid.balance (paid : state.MinerPaid height ctx reward output kernel coinbase)
    (admitted : ∀ tx ∈ txs, state.Admitted height ctx tx)
    (few : ((coinbase :: txs).flatMap Transaction.kernels).length ≤ maxBlockKernels) :
    ∃ offset, checkBalance P (BlockBody.aggregate P (coinbase :: txs)) = .ok offset := by
  have fees := (paid.fees_lt admitted few).2
  have rewards := paid.rewards_eq admitted
  have bound := reward.toNat_lt
  have unwrapped : (BlockBody.aggregate P (coinbase :: txs)).wrapped = 0 := by
    rw [BlockBody.wrapped, wraps, wraps, rewards, Nat.div_eq_of_lt fees, Nat.div_eq_of_lt bound]
    rfl
  refine BlockBody.checkBalance_eq_ok.mpr ⟨paid.decodes_aggregate admitted, ?_⟩
  rw [paid.surplus_eq admitted, unwrapped, mul_zero, zero_smul]

end Together

/-! ## The supply -/

section Supply

variable {state : LedgerState P} {body : BlockBody} {subsidy : UInt64}

/-- A balanced body can be staged, and moves `Σ UTXO − Σ kernels` by `(reward − fee)·G`. -/
theorem stage_of_balanced (sound : state.Sound) (decodes : body.Decodes P) {offset : P.Point}
    (balance : checkBalance P body = .ok offset) :
    ∃ kernels kernelSum projected,
      stageKernels P state.kernels body offset = .ok kernels ∧
      kernels.point P = some kernelSum ∧
      state.utxos.sumAfter body.spentSet body.outputCommits = some projected ∧
      projected - kernelSum = (netSupply state.supply +
        ((body.totalReward.toNat : ℤ) - body.totalFee.toNat)) • P.generatorG := by
  obtain ⟨before, stated, equation⟩ := sound.equation
  have excesses := (Commitment.sum_eq_some P).mpr ⟨decodes.kernels, rfl⟩
  have created := (Commitment.sum_eq_some P).mpr ⟨decodes.outputs, rfl⟩
  have spent := (Commitment.sum_eq_some P).mpr ⟨decodes.inputs, rfl⟩
  have spentSet : Commitment.sum P body.spentSet =
      some (body.inputCommits.map (Commitment.pointOrZero P)).sum := by
    refine (Commitment.sum_eq_some P).mpr ⟨fun commit member => ?_, ?_⟩
    · exact decodes.inputs commit (BlockBody.mem_spentSet.mp member)
    · exact ((body.spentSet_perm.map (Commitment.pointOrZero P)).sum_eq).symm
  obtain ⟨added, addedAll⟩ := KernelAccumulator.addAll_isSome stated excesses
  obtain ⟨points, pointsSum, addedPoint⟩ := KernelAccumulator.point_addAll stated addedAll
  obtain ⟨after, offsetAdded⟩ := KernelAccumulator.addOffset_isSome addedPoint offset
  obtain rfl := Option.some.inj (excesses.symm.trans pointsSum)
  refine ⟨after, _, state.utxos.sum - (body.inputCommits.map (Commitment.pointOrZero P)).sum +
    (body.outputCommits.map (Commitment.pointOrZero P)).sum, ?_,
    KernelAccumulator.point_addOffset addedPoint offsetAdded, ?_, ?_⟩
  · simp only [stageKernels, Guard.bind_eq_ok, Guard.need_eq_ok]
    exact ⟨added, addedAll, offsetAdded⟩
  · exact UtxoSet.sumAfter_eq_some.mpr
      ⟨_, _, _, sound.commitmentSum_eq, spentSet, created, rfl⟩
  · simp only [checkBalance, Guard.bind_eq_ok, Guard.need_eq_ok, Guard.mapError_eq_ok,
      Guard.refuse_eq_ok, not_not, Except.ok.injEq, expectedExcess, created, spent,
      Option.bind_eq_bind, Option.bind_some, Option.some.injEq, BlockBody.kernelExcessSum,
      Option.map_eq_some_iff] at balance
    obtain ⟨_, rfl, _, ⟨excess, excessSum, rfl⟩, _, _, _, point, _, equal, rfl⟩ := balance
    obtain rfl := Option.some.inj (excesses.symm.trans excessSum)
    rw [Commitment.point_fromPoint, Option.some.injEq] at point
    subst point
    rw [commitPublicValue_eq_zsmul, commitPublicValue_eq_zsmul] at equal
    rw [add_smul, sub_smul, ← equation, add_assoc, ← equal]
    abel

/-- A staged supply that does not burn more than it mints satisfies the equation. -/
theorem equation_of_staged {kernels : KernelAccumulator} {kernelSum projected : P.Point}
    {next : SupplyState} (staged : stageSupply state.supply subsidy body.totalFee = .ok next)
    (point : kernels.point P = some kernelSum)
    (rewarded : body.totalReward = coinbaseDue body subsidy)
    (moved : projected - kernelSum = (netSupply state.supply +
      ((body.totalReward.toNat : ℤ) - body.totalFee.toNat)) • P.generatorG)
    (burned : next.totalBurnedDarks ≤ next.totalMintedDarks)
    (capped : next.totalMintedDarks ≤ maxSupplyDarks) :
    supplyEquationHolds P projected kernels next = .ok () := by
  refine supplyEquationHolds_eq_ok.mpr ⟨kernelSum, point, ?_, capped⟩
  have circulating : (next.circulating.toNat : ℤ) = netSupply next := by
    have le := UInt64.le_iff_toNat_le.mp burned
    rw [SupplyState.circulating, Machine.toNat_saturatingSub, netSupply, Nat.cast_sub le]
  rw [moved, rewarded, commitPublicValue_eq_zsmul, circulating, netSupply_stageSupply staged]

/-- What staging the supply makes of the counters. -/
theorem stageSupply_eq_ok {supply next : SupplyState} {fees : UInt64} :
    stageSupply supply subsidy fees = .ok next ↔
      if subsidy > 0 then
        next.totalMintedDarks.toNat = supply.totalMintedDarks.toNat + subsidy.toNat ∧
          next.totalBurnedDarks.toNat = supply.totalBurnedDarks.toNat + fees.toNat
      else next = supply := by
  unfold stageSupply
  split
  · simp only [Guard.bind_eq_ok, Guard.need_eq_ok, Machine.checkedAdd_eq_some, Except.ok.injEq]
    constructor
    · rintro ⟨minted, mintedExact, burned, burnedExact, rfl⟩
      exact ⟨mintedExact, burnedExact⟩
    · rintro ⟨mintedExact, burnedExact⟩
      exact ⟨_, mintedExact, _, burnedExact, rfl⟩
  · rw [Except.ok.injEq, eq_comm]

/-- Counters that cover the new burns can be staged. -/
theorem stageSupply_of_covered (sound : state.Sound) {fees : UInt64}
    (minted : state.supply.totalMintedDarks.toNat + subsidy.toNat ≤ maxSupplyDarks.toNat)
    (covered : subsidy > 0 → state.supply.totalBurnedDarks.toNat + fees.toNat ≤
      state.supply.totalMintedDarks.toNat + subsidy.toNat) :
    ∃ next, stageSupply state.supply subsidy fees = .ok next ∧
      next.totalBurnedDarks ≤ next.totalMintedDarks ∧ next.totalMintedDarks ≤ maxSupplyDarks := by
  by_cases positive : subsidy > 0
  · have cap := maxSupplyDarks.toNat_lt
    have covers := covered positive
    have mintedExact : (state.supply.totalMintedDarks + subsidy).toNat =
        state.supply.totalMintedDarks.toNat + subsidy.toNat := by
      rw [UInt64.toNat_add, Nat.mod_eq_of_lt (by omega)]
    have burnedExact : (state.supply.totalBurnedDarks + fees).toNat =
        state.supply.totalBurnedDarks.toNat + fees.toNat := by
      rw [UInt64.toNat_add, Nat.mod_eq_of_lt (by omega)]
    refine ⟨⟨state.supply.totalMintedDarks + subsidy, state.supply.totalBurnedDarks + fees⟩,
      ?_, ?_, ?_⟩
    · rw [stageSupply_eq_ok, if_pos positive]
      exact ⟨mintedExact, burnedExact⟩
    · rw [UInt64.le_iff_toNat_le, mintedExact, burnedExact]
      exact covers
    · rw [UInt64.le_iff_toNat_le, mintedExact]
      exact minted
  · refine ⟨state.supply, ?_, sound.burned_le, sound.minted_le⟩
    rw [stageSupply_eq_ok, if_neg positive]

end Supply

section Valid

variable {state : LedgerState P} {height subsidy reward : UInt64} {ctx : Bytes}
  {output : Output} {kernel : TxKernel} {coinbase : Transaction} {txs : List Transaction}

/-- A valid body whose transactions were admitted is mineable. -/
theorem MinerPaid.mineable_of_valid (sound : state.Sound)
    (paid : state.MinerPaid height ctx reward output kernel coinbase)
    (admitted : ∀ tx ∈ txs, state.Admitted height ctx tx) {offset : P.Point} {staged : Staged}
    (valid : Valid state (BlockBody.aggregate P (coinbase :: txs)) height subsidy ctx kernel
      offset staged) :
    kernel.verifySignature P = true ∧ state.Mineable height subsidy (coinbase :: txs) := by
  have outputSet := BlockBody.outputs_aggregate_perm (P := P) (coinbase :: txs)
  have kernelSet := BlockBody.kernels_aggregate_perm (P := P) (coinbase :: txs)
  have paidKernel : kernel ∈ (BlockBody.aggregate P (coinbase :: txs)).kernels :=
    kernelSet.mem_iff.mpr (by simp [paid.kernels])
  have signed := valid.kernels kernel paidKernel
  simp only [checkKernel, Guard.bind_eq_ok, Guard.refuse_eq_ok, not_not] at signed
  obtain ⟨_, _, _, signed, _⟩ := signed
  obtain ⟨inputsFit, outputsFit, kernelsFit⟩ :=
    (BlockBody.exceedsSizeLimits_aggregate _).mp valid.size
  refine ⟨signed, ⟨?_, ?_, ?_, inputsFit, outputsFit, kernelsFit, ?_⟩⟩
  · intro tx listed other inside
    rcases List.mem_cons.mp listed with rfl | later
    · rw [paid.kernels, List.mem_singleton] at inside
      rw [inside, paid.pinned]
      exact UInt64.le_refl height
    · have checked := valid.kernels other
        (kernelSet.mem_iff.mpr (List.mem_flatMap.mpr ⟨tx, listed, inside⟩))
      simp only [checkKernel, Guard.bind_eq_ok, Guard.refuse_eq_ok, not_and, not_not] at checked
      obtain ⟨_, _, _, _, unlocked⟩ := checked
      exact UInt64.not_lt.mp (unlocked ((admitted tx later).plainKernels other inside))
  · exact ((outputSet.map Output.commit).nodup_iff).mp valid.created_nodup
  · intro other member
    exact valid.created_fresh other.commit
      (List.mem_map_of_mem (outputSet.mem_iff.mpr member))
  · intro positive
    have sums := stageSupply_eq_ok.mp valid.stagedSupply
    rw [if_pos positive] at sums
    have burned := UInt64.le_iff_toNat_le.mp (valid.sound_commit sound).burned_le
    have fees := (paid.fees_lt admitted kernelsFit).2
    have total := BlockBody.toNat_totalFee fees
    simp only [commit] at burned
    rw [← BlockBody.exactTotal_fees_aggregate (P := P)]
    omega

/-- Behind a coinbase, admitted transactions that are mineable make a valid body. -/
theorem MinerPaid.valid_of_mineable (sound : state.Sound)
    (paid : state.MinerPaid height ctx
      (coinbaseDue (BlockBody.aggregate P (coinbase :: txs)) subsidy) output kernel coinbase)
    (admitted : ∀ tx ∈ txs, state.Admitted height ctx tx)
    (apart : ((txs.flatMap Transaction.inputs).map Input.commit).Nodup)
    (cap : state.supply.wouldExceedCap subsidy = false)
    (signed : kernel.verifySignature P = true)
    (mineable : state.Mineable height subsidy (coinbase :: txs)) :
    ∃ offset staged, Valid state (BlockBody.aggregate P (coinbase :: txs)) height subsidy ctx
      kernel offset staged := by
  have inputSet := BlockBody.inputs_aggregate_perm (P := P) (coinbase :: txs)
  have outputSet := BlockBody.outputs_aggregate_perm (P := P) (coinbase :: txs)
  have kernelSet := BlockBody.kernels_aggregate_perm (P := P) (coinbase :: txs)
  have paidKernel : kernel ∈ (BlockBody.aggregate P (coinbase :: txs)).kernels :=
    kernelSet.mem_iff.mpr (by simp [paid.kernels])
  have minted : state.supply.totalMintedDarks.toNat + subsidy.toNat ≤ maxSupplyDarks.toNat :=
    SupplyState.wouldExceedCap_eq_false.mp cap
  obtain ⟨bounded, fees⟩ := paid.fees_lt admitted mineable.kernelsFit
  obtain ⟨one, found⟩ := paid.kernel_found admitted
  obtain ⟨offset, balance⟩ := paid.balance admitted mineable.kernelsFit
  obtain ⟨kernels, kernelSum, projected, stagedKernels, point, sums, moved⟩ :=
    stage_of_balanced sound (paid.decodes_aggregate admitted) balance
  have total := BlockBody.toNat_totalFee fees
  have rewarded : (BlockBody.aggregate P (coinbase :: txs)).totalReward =
      coinbaseDue (BlockBody.aggregate P (coinbase :: txs)) subsidy := by
    rw [← UInt64.toNat_inj]
    have claimed := paid.rewards_eq admitted
    have bound := (coinbaseDue (BlockBody.aggregate P (coinbase :: txs)) subsidy).toNat_lt
    have sum := toNat_sum (BlockBody.aggregate P (coinbase :: txs)).rewards
    rw [claimed, Nat.mod_eq_of_lt bound] at sum
    exact sum
  obtain ⟨supply, stagedSupply, burned, capped⟩ : ∃ next,
      stageSupply state.supply subsidy (BlockBody.aggregate P (coinbase :: txs)).totalFee =
        .ok next ∧ next.totalBurnedDarks ≤ next.totalMintedDarks ∧
        next.totalMintedDarks ≤ maxSupplyDarks :=
    stageSupply_of_covered sound minted fun positive => by
      rw [total, BlockBody.exactTotal_fees_aggregate]
      exact mineable.burned positive
  have equation := equation_of_staged stagedSupply point rewarded moved burned capped
  have listedInputs : ∀ input ∈ (BlockBody.aggregate P (coinbase :: txs)).inputs,
      state.checkInput height (state.bindingActive height) input = .ok () := by
    intro input member
    obtain ⟨tx, listed, inside⟩ := List.mem_flatMap.mp (inputSet.mem_iff.mp member)
    rcases List.mem_cons.mp listed with rfl | later
    · rw [paid.inputs] at inside
      cases inside
    · exact (admitted tx later).inputs input inside
  have spentNodup : (BlockBody.aggregate P (coinbase :: txs)).inputCommits.Nodup := by
    refine ((inputSet.map Input.commit).nodup_iff).mpr ?_
    rw [List.flatMap_cons, paid.inputs, List.nil_append]
    exact apart
  have undo : state.captureUndo (BlockBody.aggregate P (coinbase :: txs)) =
      .ok (state.undoRecord (BlockBody.aggregate P (coinbase :: txs))) := by
    refine captureUndo_eq_ok.mpr ⟨?_, spentNodup, rfl⟩
    intro commit member
    obtain ⟨input, inside, rfl⟩ := List.mem_map.mp member
    obtain ⟨entry, present, _⟩ := checkInput_eq_ok.mp (listedInputs input inside)
    rw [present]
    rfl
  refine ⟨offset, ⟨kernels, supply, _⟩, {
    outputs_ne := ?_
    kernels_ne := List.ne_nil_of_mem paidKernel
    canonical := BlockBody.isCanonical_aggregate _
    size := (BlockBody.exceedsSizeLimits_aggregate _).mpr
      ⟨mineable.inputsFit, mineable.outputsFit, mineable.kernelsFit⟩
    oneCoinbase := one
    coinbaseFound := found
    reward := paid.claims
    pinned := paid.pinned
    cap := cap
    fees := fun _ => ?_
    kernels := ?_
    outputs := ?_
    created_nodup := ((outputSet.map Output.commit).nodup_iff).mpr mineable.created
    created_fresh := ?_
    spent_nodup := spentNodup
    inputs := listedInputs
    keys := paid.keyBalance admitted
    balance := balance
    coinbaseOutput := paid.output_opens admitted _
    stagedKernels := stagedKernels
    stagedSupply := stagedSupply
    equation := ⟨projected, sums, equation⟩
    undo := undo }⟩
  · refine List.ne_nil_of_mem (a := output) (outputSet.mem_iff.mpr ?_)
    simp [paid.outputs]
  · exact Option.isSome_of_eq_some (BlockBody.checkedFeeSum_kernels bounded fees)
  · intro other member
    obtain ⟨tx, listed, inside⟩ := List.mem_flatMap.mp (kernelSet.mem_iff.mp member)
    have unlocked := UInt64.not_lt.mpr (mineable.unlocked tx listed other inside)
    simp only [checkKernel, Guard.bind_eq_ok, Guard.mapError_eq_ok, Guard.refuse_eq_ok, not_and,
      not_not]
    rcases List.mem_cons.mp listed with rfl | later
    · rw [paid.kernels, List.mem_singleton] at inside
      subst inside
      obtain ⟨_, _, excess⟩ := paid.opens
      refine ⟨(), ?_, (), signed, fun _ => unlocked⟩
      simp [TxKernel.checkShape, paid.coinbase, paid.free, excess]
    · exact ⟨(), (admitted tx later).shapes other inside, (),
        (admitted tx later).signed other inside, fun _ => unlocked⟩
  · intro other member
    obtain ⟨tx, listed, inside⟩ := List.mem_flatMap.mp (outputSet.mem_iff.mp member)
    rcases List.mem_cons.mp listed with rfl | later
    · rw [paid.outputs, List.mem_singleton] at inside
      rw [inside]
      exact paid.checked
    · exact (admitted tx later).outputs other inside
  · intro commit member
    obtain ⟨other, inside, rfl⟩ := List.mem_map.mp member
    exact mineable.fresh other (outputSet.mem_iff.mp inside)

end Valid

end LedgerState

end Nightfall
