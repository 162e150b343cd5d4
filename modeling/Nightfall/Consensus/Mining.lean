import Nightfall.Consensus.Selection
import Nightfall.Consensus.Template
import Nightfall.Ledger.Mineable
import Nightfall.Wallet.Balances

/-!
# From the pool into a block

A transaction that the pool admits is admitted by the block rules in the shape that a block at
the next height has.  A template over admitted transactions is built exactly when these are
mineable together.
-/

namespace Nightfall

variable {P : Primitives}

/-! ## The shape below the fork -/

/-- The transaction as a block carries it: without binding fields below the fork. -/
def Transaction.inShape (binding : Bool) (tx : Transaction) : Transaction :=
  if binding then tx else tx.stripBinding

namespace LedgerState

variable {state : LedgerState P} {height : UInt64} {ctx : Bytes} {tx : Transaction}

theorem decodes_stripBinding (decodes : tx.contents.Decodes P) :
    tx.stripBinding.contents.Decodes P where
  inputs := by
    have all := decodes.inputs
    simpa [BlockBody.inputCommits, Transaction.contents, Transaction.stripBinding,
      Input.stripBinding, Function.comp_def] using all
  outputs := decodes.outputs
  kernels := by
    have all := decodes.kernels
    simpa [BlockBody.excesses, Transaction.contents, Transaction.stripBinding,
      TxKernel.stripBinding, Function.comp_def] using all
  offset := by
    rintro _ ⟨⟩

theorem surplus_stripBinding (noOffset : tx.kernelOffset = none) :
    tx.stripBinding.contents.surplus P = tx.contents.surplus P := by
  simp only [BlockBody.surplus, BlockBody.outputCommits, BlockBody.inputCommits, BlockBody.excesses,
    BlockBody.fees, BlockBody.rewards, Transaction.contents, Transaction.stripBinding,
    Input.stripBinding, TxKernel.stripBinding, List.map_map, Function.comp_def, noOffset]

/-- Below the fork nothing is lost with the binding fields. -/
theorem Admitted.stripBinding (admitted : state.Admitted height ctx tx)
    (inactive : state.bindingActive height = false) (noOffset : tx.kernelOffset = none) :
    state.Admitted height ctx tx.stripBinding where
  plainOutputs := admitted.plainOutputs
  plainKernels := by
    simp only [Transaction.stripBinding, List.forall_mem_map]
    exact admitted.plainKernels
  shapes := by
    simp only [Transaction.stripBinding, List.forall_mem_map]
    exact admitted.shapes
  signed := by
    simp only [Transaction.stripBinding, List.forall_mem_map]
    exact admitted.signed
  fees := by
    simp only [Transaction.stripBinding, List.forall_mem_map]
    exact admitted.fees
  outputs := admitted.outputs
  fresh := admitted.fresh
  inputs := by
    simp only [Transaction.stripBinding, List.forall_mem_map]
    intro input member
    obtain ⟨entry, present, mature, signed, _⟩ :=
      checkInput_eq_ok.mp (admitted.inputs input member)
    refine checkInput_eq_ok.mpr ⟨entry, present, mature, signed, ?_⟩
    rw [inactive]
    intro active
    cases active
  decodes := decodes_stripBinding admitted.decodes
  surplus := by rw [surplus_stripBinding noOffset, admitted.surplus]
  keys active := by
    rw [inactive] at active
    cases active

theorem MinerPaid.stripBinding {reward : UInt64} {output : Output} {kernel : TxKernel}
    (paid : state.MinerPaid height ctx reward output kernel tx)
    (inactive : state.bindingActive height = false) (noOffset : tx.kernelOffset = none) :
    state.MinerPaid height ctx reward output kernel.stripBinding tx.stripBinding where
  inputs := by rw [Transaction.stripBinding, paid.inputs, List.map_nil]
  outputs := paid.outputs
  kernels := by rw [Transaction.stripBinding, paid.kernels, List.map_singleton]
  flagged := paid.flagged
  checked := paid.checked
  coinbase := paid.coinbase
  free := paid.free
  claims := paid.claims
  pinned := paid.pinned
  opens := paid.opens
  decodes := decodes_stripBinding paid.decodes
  surplus := by rw [surplus_stripBinding noOffset, paid.surplus]
  keys active := by
    rw [inactive] at active
    cases active

/-- What is mineable is so with and without binding fields. -/
theorem mineable_map_inShape (state : LedgerState P) (height subsidy : UInt64) (binding : Bool)
    (txs : List Transaction) :
    state.Mineable height subsidy (txs.map (Transaction.inShape binding)) ↔
      state.Mineable height subsidy txs := by
  cases binding with
  | true =>
      have same : Transaction.inShape true = id := rfl
      rw [same, List.map_id]
  | false =>
      have outputs : (txs.map (Transaction.inShape false)).flatMap Transaction.outputs =
          txs.flatMap Transaction.outputs := by
        rw [List.flatMap_map]
        rfl
      have inputs : ((txs.map (Transaction.inShape false)).flatMap Transaction.inputs).length =
          (txs.flatMap Transaction.inputs).length := by
        simp [List.flatMap_map, Transaction.inShape, Transaction.stripBinding]
      have kernels : ((txs.map (Transaction.inShape false)).flatMap Transaction.kernels).length =
          (txs.flatMap Transaction.kernels).length := by
        simp [List.flatMap_map, Transaction.inShape, Transaction.stripBinding]
      have fees : ((txs.map (Transaction.inShape false)).map fun tx =>
          exactTotal tx.contents.fees) = txs.map fun tx => exactTotal tx.contents.fees := by
        simp [Transaction.inShape, Transaction.stripBinding, Transaction.contents, BlockBody.fees,
          TxKernel.stripBinding, Function.comp_def]
      have locks : (∀ tx ∈ txs.map (Transaction.inShape false), ∀ kernel ∈ tx.kernels,
            kernel.lockHeight ≤ height) ↔
          ∀ tx ∈ txs, ∀ kernel ∈ tx.kernels, kernel.lockHeight ≤ height := by
        simp [Transaction.inShape, Transaction.stripBinding, TxKernel.stripBinding]
      constructor
      · rintro ⟨unlocked, created, fresh, inputsFit, outputsFit, kernelsFit, burned⟩
        rw [outputs] at created fresh outputsFit
        rw [inputs] at inputsFit
        rw [kernels] at kernelsFit
        rw [fees] at burned
        exact ⟨locks.mp unlocked, created, fresh, inputsFit, outputsFit, kernelsFit, burned⟩
      · rintro ⟨unlocked, created, fresh, inputsFit, outputsFit, kernelsFit, burned⟩
        refine ⟨locks.mpr unlocked, ?_, ?_, ?_, ?_, ?_, ?_⟩
        · rwa [outputs]
        · rwa [outputs]
        · rwa [inputs]
        · rwa [outputs]
        · rwa [kernels]
        · rwa [fees]

/-! ## Admission -/

/-- Below the fork an acceptable transaction has no kernel offset. -/
theorem kernelOffset_of_acceptable
    (acceptable : state.checkTxAcceptable tx height ctx = .ok ())
    (inactive : state.bindingActive height = false) : tx.kernelOffset = none := by
  simp only [checkTxAcceptable, Transaction.verifyStatelessRules, Guard.bind_eq_ok,
    Guard.mapError_eq_ok, Guard.refuse_eq_ok, inactive] at acceptable
  obtain ⟨_, _, _, ⟨_, _, _, _, _, unset, _⟩, _⟩ := acceptable
  simpa using unset

/-- An acceptable transaction is admitted as it stands. -/
theorem admitted_of_acceptable (acceptable : state.checkTxAcceptable tx height ctx = .ok ()) :
    state.Admitted height ctx tx := by
  simp only [checkTxAcceptable, Transaction.verifyStatelessRules, Guard.bind_eq_ok,
    Guard.mapError_eq_ok, Guard.refuse_eq_ok, Guard.onlyIf_eq_ok, Guard.each_eq_ok,
    checkInputs_eq_ok, UtxoSet.contains_eq_isSome, Bool.not_eq_true, Option.isSome_eq_false_iff,
    Option.isNone_iff_eq_none] at acceptable
  obtain ⟨_, notCoinbase, _, ⟨_, shape, _, fee, _, _, _, full, _, keys, balance⟩, _,
    ⟨inputs, _⟩, _, fresh, plain⟩ := acceptable
  have plainKernels : ∀ kernel ∈ tx.kernels, kernel.feature = .plain := by
    intro kernel member
    cases feature : kernel.feature with
    | plain => rfl
    | coinbase => exact absurd feature (plain kernel member)
  have shapes : ∀ kernel ∈ tx.kernels, kernel.checkShape P = .ok () := by
    simp only [Transaction.checkShape, Guard.bind_eq_ok, Guard.each_eq_ok,
      Guard.mapError_eq_ok] at shape
    obtain ⟨_, _, _, _, _, _, _, _, _, _, _, _, _, _, _, _, _, _, shapes⟩ := shape
    exact shapes
  have noCoinbase : tx.kernels.countP isCoinbaseKernel = 0 := by
    refine List.countP_eq_zero.mpr fun kernel member => ?_
    simp [isCoinbaseKernel, plainKernels kernel member]
  obtain ⟨points, plainOutputs⟩ : (∀ output ∈ tx.outputs,
        (Commitment.point P output.commit).isSome ∧ (output.outputPoint P).isSome) ∧
      ∀ output ∈ tx.outputs, output.features.isCoinbase = false := by
    simp only [Transaction.checkShape, Guard.bind_eq_ok, Guard.refuse_eq_ok,
      Guard.eachOnce_eq_ok, noCoinbase, true_and, Bool.not_eq_true, List.any_eq_false,
      Option.isNone_eq_false_iff] at shape
    obtain ⟨_, _, _, _, _, _, _, _, _, _, _, ⟨points, _⟩, _, _, _, _, _, plain, _⟩ := shape
    refine ⟨fun output member => ?_, plain⟩
    obtain ⟨_, point, key⟩ := points output member
    exact ⟨point, key⟩
  obtain ⟨proven, signed, decodes, surplus⟩ := Transaction.verifyValueBalance_eq_ok.mp balance
  obtain ⟨total, summed⟩ := Option.isSome_iff_exists.mp
    (Option.isSome_iff_ne_none.mpr fee)
  obtain ⟨bounded, exactly⟩ := checkedFeeSum_eq_some.mp summed
  have feesFit : exactTotal tx.contents.fees < 2 ^ 64 := by
    have bound := total.toNat_lt
    rw [exactly] at bound
    rw [exactTotal, BlockBody.fees, List.map_map]
    exact bound
  have unwrapped : tx.contents.wrapped = 0 := by
    rw [BlockBody.wrapped, wraps, wraps, exactTotal_rewards_of_plain plainKernels shapes,
      Nat.div_eq_of_lt feesFit]
    rfl
  exact {
    plainOutputs := plainOutputs
    plainKernels := plainKernels
    shapes := shapes
    signed := signed
    fees := bounded
    outputs := by
      intro output member
      obtain ⟨point, key⟩ := points output member
      simp only [checkOutput, Guard.bind_eq_ok, Guard.refuse_eq_ok, not_or, Bool.not_eq_true,
        Option.isNone_eq_false_iff, Bool.not_eq_false]
      exact ⟨(), ⟨point, key⟩, (), proven output member⟩
    fresh := fresh
    inputs := by
      intro input member
      obtain ⟨entry, present, mature, signature, bound⟩ :=
        checkInput_eq_ok.mp (inputs input member)
      exact checkInput_eq_ok.mpr ⟨entry, present, mature, signature,
        fun active => bound (by rw [active, Bool.true_or])⟩
    decodes := decodes
    surplus := by rw [surplus, unwrapped, mul_zero, zero_smul]
    keys := by
      intro active
      obtain ⟨_, _, balanced⟩ := keys (by rw [active, Bool.true_or])
      exact tx.contents.keyBalance_eq_ok.mp balanced }

/-! ## The coinbase -/

/-- A built coinbase pays the miner, and its kernel is signed unless its output is unblinded. -/
theorem minerPaid_of_built {C : TransferCrypto P} (state : LedgerState P) (sound : C.Sound)
    {r s : P.Scalar} {miner : Address} {reward : UInt64}
    (built : buildCoinbase C r s miner reward height ctx = .ok tx) :
    ∃ output kernel, state.MinerPaid height ctx reward output kernel tx ∧
      tx.kernelOffset = none ∧
      (kernel.verifySignature P = true ↔ outputBlind P r miner • P.generatorH ≠ 0) := by
  have parts := built_of_buildCoinbase sound built
  obtain ⟨output, outputs, flagged, kernel, kernels, coinbase, free, claims, opened, decoded,
    opens⟩ := parts.output
  simp only [buildCoinbase, Guard.bind_eq_ok, Guard.need_eq_ok, Except.ok.injEq] at built
  obtain ⟨⟨created, secrets⟩, made, rfl⟩ := built
  obtain rfl := List.singleton_inj.mp outputs
  obtain rfl := List.singleton_inj.mp kernels
  have spec := createOutput_spec sound made
  obtain ⟨_, _, signed⟩ := builtKernel_spec sound .coinbase 0 reward height secrets.blind
    (-secrets.ephemeral - s)
  have key : (created.outputPoint P).isSome := by
    simp only [createOutput, Option.bind_eq_bind, Option.bind_eq_some_iff,
      Option.some.injEq, Prod.mk.injEq] at made
    obtain ⟨_, _, _, _, _, _, _, _, rfl, _⟩ := made
    simp [Output.outputPoint, P.decompress_compress]
  refine ⟨created, _, ⟨rfl, rfl, rfl, flagged, ?_, rfl, rfl, rfl, rfl, ⟨opened, decoded, opens⟩,
    parts.decodes, parts.surplus, fun _ => ⟨parts.keysDecode, parts.keySurplus⟩⟩, rfl, ?_⟩
  · simp only [checkOutput, Guard.bind_eq_ok, Guard.refuse_eq_ok, not_or, Bool.not_eq_true,
      Option.isNone_eq_false_iff, Bool.not_eq_false]
    exact ⟨(), ⟨Option.isSome_of_eq_some decoded, key⟩, (), spec.proven, spec.signed⟩
  · rw [signed, ← spec.blind]

end LedgerState

/-! ## Templates over admitted transactions -/

namespace Chain

variable {C : TransferCrypto P} {chain : Chain P} {r s : P.Scalar} {miner : Address}
  {txs : List Transaction} {timestampUnix : UInt64}

/-- What the coinbase of a template pays: the subsidy, or the fees after the last one. -/
def templateReward (chain : Chain P) (txs : List Transaction) : UInt64 :=
  if subsidyAt chain.ledger chain.nextHeight > 0 then subsidyAt chain.ledger chain.nextHeight
  else (txs.map Transaction.totalFee).sum

theorem templateTxs_eq (chain : Chain P) (txs : List Transaction) :
    chain.templateTxs chain.nextHeight txs =
      txs.map (Transaction.inShape (chain.bindingActiveAt chain.nextHeight)) := by
  unfold templateTxs
  cases chain.bindingActiveAt chain.nextHeight with
  | true => exact (List.map_id txs).symm
  | false => rfl

@[simp] theorem totalFee_inShape (binding : Bool) (tx : Transaction) :
    (tx.inShape binding).totalFee = tx.totalFee := by
  cases binding with
  | true => rfl
  | false =>
      simp [Transaction.inShape, Transaction.totalFee, wrappingFeeSum_eq_sum,
        Transaction.stripBinding, TxKernel.stripBinding, Function.comp_def]

theorem toNat_totalFee (tx : Transaction) :
    tx.totalFee.toNat = exactTotal tx.contents.fees % 2 ^ 64 := by
  rw [Transaction.totalFee, wrappingFeeSum_eq_sum]
  exact toNat_sum _

theorem toNat_sum_totalFee (txs : List Transaction) :
    ((txs.map Transaction.totalFee).sum).toNat =
      (txs.map fun tx => exactTotal tx.contents.fees).sum % 2 ^ 64 := by
  induction txs with
  | nil => rfl
  | cons tx rest ih =>
      rw [List.map_cons, List.sum_cons, UInt64.toNat_add, ih, toNat_totalFee, List.map_cons,
        List.sum_cons, ← Nat.add_mod]

theorem checkedTotalFee_eq_some {tx : Transaction} {fee : UInt64} :
    tx.checkedTotalFee = some fee ↔
      (∀ kernel ∈ tx.kernels, kernel.feeDarks ≤ maxKernelFeeDarks) ∧
        fee.toNat = exactTotal tx.contents.fees := by
  rw [Transaction.checkedTotalFee, checkedFeeSum_eq_some, exactTotal, BlockBody.fees,
    List.map_map]
  rfl

/-- The checked total of the fees exists exactly when every fee is in range and nothing
overflows. -/
theorem foldlM_checkedTotalFee {start total : UInt64} :
    txs.foldlM (fun total tx => tx.checkedTotalFee.bind fun fee => Machine.checkedAdd total fee)
        start = some total ↔
      (∀ tx ∈ txs, ∀ kernel ∈ tx.kernels, kernel.feeDarks ≤ maxKernelFeeDarks) ∧
        total.toNat = start.toNat + (txs.map fun tx => exactTotal tx.contents.fees).sum := by
  induction txs generalizing start with
  | nil => simp [← UInt64.toNat_inj, eq_comm]
  | cons tx rest ih =>
      simp only [List.foldlM_cons, Option.bind_eq_bind, Option.bind_eq_some_iff,
        Machine.checkedAdd_eq_some, checkedTotalFee_eq_some, ih, List.mem_cons, forall_eq_or_imp,
        List.map_cons, List.sum_cons]
      constructor
      · rintro ⟨next, ⟨fee, ⟨bounded, exactly⟩, added⟩, others, summed⟩
        exact ⟨⟨bounded, others⟩, by omega⟩
      · rintro ⟨⟨bounded, others⟩, summed⟩
        have fits := total.toNat_lt
        have small : exactTotal tx.contents.fees < 2 ^ 64 := by omega
        have below : start.toNat + exactTotal tx.contents.fees < 2 ^ 64 := by omega
        refine ⟨UInt64.ofNat (start.toNat + exactTotal tx.contents.fees),
          ⟨UInt64.ofNat (exactTotal tx.contents.fees), ⟨bounded, ?_⟩, ?_⟩, others, ?_⟩
        · exact UInt64.toNat_ofNat_of_lt' small
        · rw [UInt64.toNat_ofNat_of_lt' small, UInt64.toNat_ofNat_of_lt' below]
        · rw [UInt64.toNat_ofNat_of_lt' below]
          omega

/-- The fees of a template are the plain sum wherever they are in range. -/
theorem templateFees_eq_sum {height fees : UInt64}
    (summed : chain.templateFees height txs = .ok fees) :
    fees = (txs.map Transaction.totalFee).sum := by
  unfold templateFees at summed
  split at summed
  · rw [Guard.need_eq_ok, foldlM_checkedTotalFee, UInt64.toNat_zero, Nat.zero_add] at summed
    have bound := fees.toNat_lt
    rw [← UInt64.toNat_inj, toNat_sum_totalFee, ← summed.2, Nat.mod_eq_of_lt bound]
  · rw [← Except.ok.inj summed, List.sum_eq_foldl, List.foldl_map]

theorem templateFees_of_bounded (chain : Chain P) (height : UInt64)
    (bounded : ∀ tx ∈ txs, ∀ kernel ∈ tx.kernels, kernel.feeDarks ≤ maxKernelFeeDarks)
    (fits : (txs.map fun tx => exactTotal tx.contents.fees).sum < 2 ^ 64) :
    chain.templateFees height txs = .ok ((txs.map Transaction.totalFee).sum) := by
  unfold templateFees
  split
  · rw [Guard.need_eq_ok, foldlM_checkedTotalFee, toNat_sum_totalFee, Nat.mod_eq_of_lt fits,
      UInt64.toNat_zero, Nat.zero_add]
    exact ⟨bounded, rfl⟩
  · rw [List.sum_eq_foldl, List.foldl_map]

/-- The block rules and the template agree on the shape of a transaction. -/
theorem bindingActive_eq (settled : chain.Settled) (height : UInt64) :
    chain.ledger.bindingActive height = chain.bindingActiveAt height := by
  rw [LedgerState.bindingActive, settled.binding, bindingActiveAt]

/-- Admitted by the pool, a transaction is admitted in the shape that a block has. -/
theorem admitted_inShape (settled : chain.Settled) {tx : Transaction}
    (acceptable : chain.precheckTxTyped tx = .ok ()) :
    chain.ledger.Admitted chain.nextHeight chain.proofCtx
      (tx.inShape (chain.bindingActiveAt chain.nextHeight)) := by
  have admitted := LedgerState.admitted_of_acceptable acceptable
  cases active : chain.bindingActiveAt chain.nextHeight with
  | true => exact admitted
  | false =>
      have inactive : chain.ledger.bindingActive chain.nextHeight = false := by
        rw [bindingActive_eq settled, active]
      exact admitted.stripBinding inactive
        (LedgerState.kernelOffset_of_acceptable acceptable inactive)

theorem minerPaid_inShape (settled : chain.Settled) (sound : C.Sound) {reward : UInt64}
    {coinbase : Transaction}
    (built : buildCoinbase C r s miner reward chain.nextHeight chain.proofCtx = .ok coinbase) :
    ∃ output kernel, chain.ledger.MinerPaid chain.nextHeight chain.proofCtx reward output kernel
        (coinbase.inShape (chain.bindingActiveAt chain.nextHeight)) ∧
      (kernel.verifySignature P = true ↔ outputBlind P r miner • P.generatorH ≠ 0) := by
  obtain ⟨output, kernel, paid, noOffset, signed⟩ :=
    chain.ledger.minerPaid_of_built sound built
  cases active : chain.bindingActiveAt chain.nextHeight with
  | true => exact ⟨output, kernel, paid, signed⟩
  | false =>
      have inactive : chain.ledger.bindingActive chain.nextHeight = false := by
        rw [bindingActive_eq settled, active]
      exact ⟨output, kernel.stripBinding, paid.stripBinding inactive noOffset, signed⟩

/-- The subsidy never exceeds what the cap leaves. -/
theorem wouldExceedCap_subsidyAt (sound : chain.ledger.Sound) (height : UInt64) :
    chain.ledger.supply.wouldExceedCap (subsidyAt chain.ledger height) = false := by
  have minted := UInt64.le_iff_toNat_le.mp sound.minted_le
  have cap : EmissionSchedule.lockedMainnet.maxSupplyDarks = maxSupplyDarks := rfl
  rw [SupplyState.wouldExceedCap_eq_false, subsidyAt, EmissionSchedule.rewardAt, cap]
  split
  · exact minted
  · have left : (maxSupplyDarks - chain.ledger.supply.totalMintedDarks).toNat =
        maxSupplyDarks.toNat - chain.ledger.supply.totalMintedDarks.toNat :=
      UInt64.toNat_sub_of_le _ _ sound.minted_le
    have least : (min (EmissionSchedule.lockedMainnet.theoreticalRewardAt height)
        (maxSupplyDarks - chain.ledger.supply.totalMintedDarks)).toNat ≤
          maxSupplyDarks.toNat - chain.ledger.supply.totalMintedDarks.toNat := by
      rw [← left]
      exact UInt64.le_iff_toNat_le.mp Std.min_le_right
    omega

/-- What a template is built from. -/
theorem buildTemplate_isOk {extraTxs : List Transaction} :
    (∃ template, chain.buildTemplate C r s miner extraTxs timestampUnix = .ok template) ↔
      ∃ fees coinbase trial,
        chain.templateFees chain.nextHeight (chain.templateTxs chain.nextHeight
          (extraTxs.take (maxTxsPerBlock - 1))) = .ok fees ∧
        buildCoinbase C r s miner (if subsidyAt chain.ledger chain.nextHeight > 0
          then subsidyAt chain.ledger chain.nextHeight else fees) chain.nextHeight
          chain.proofCtx = .ok coinbase ∧
        chain.ledger.applyBlock (BlockBody.aggregate P
          (coinbase.inShape (chain.bindingActiveAt chain.nextHeight) ::
            chain.templateTxs chain.nextHeight (extraTxs.take (maxTxsPerBlock - 1))))
          chain.nextHeight (subsidyAt chain.ledger chain.nextHeight) chain.proofCtx =
            (.ok (), trial) := by
  simp only [buildTemplate, Guard.bind_eq_ok, Guard.mapError_eq_ok, Guard.toExcept_eq_ok,
    Except.ok.injEq, Transaction.inShape]
  constructor
  · rintro ⟨_, fees, summed, coinbase, built, trial, applied, _⟩
    exact ⟨fees, coinbase, trial, summed, built, applied⟩
  · rintro ⟨fees, coinbase, trial, summed, built, applied⟩
    exact ⟨_, fees, summed, coinbase, built, trial, applied, rfl⟩

@[simp] theorem fees_inShape (binding : Bool) (tx : Transaction) :
    (tx.inShape binding).contents.fees = tx.contents.fees := by
  cases binding with
  | true => rfl
  | false =>
      simp [Transaction.inShape, Transaction.contents, BlockBody.fees, Transaction.stripBinding,
        TxKernel.stripBinding, Function.comp_def]

@[simp] theorem inputCommits_inShape (binding : Bool) (tx : Transaction) :
    (tx.inShape binding).inputs.map Input.commit = tx.inputs.map Input.commit := by
  cases binding with
  | true => rfl
  | false =>
      simp [Transaction.inShape, Transaction.stripBinding, Input.stripBinding, Function.comp_def]

/-- Nothing of a template is hidden from the ledger. -/
theorem visibleBody_template (settled : chain.Settled) (coinbase : Transaction) :
    chain.ledger.visibleBody (BlockBody.aggregate P ((coinbase :: txs).map
      (Transaction.inShape (chain.bindingActiveAt chain.nextHeight)))) chain.nextHeight =
      BlockBody.aggregate P ((coinbase :: txs).map
        (Transaction.inShape (chain.bindingActiveAt chain.nextHeight))) := by
  unfold LedgerState.visibleBody
  rw [bindingActive_eq settled]
  cases active : chain.bindingActiveAt chain.nextHeight with
  | true => rfl
  | false =>
      have plain : (BlockBody.aggregate P ((coinbase :: txs).map
          (Transaction.inShape false))).hasAnyBinding = false := by
        apply BlockBody.hasAnyBinding_aggregate
        intro tx listed
        obtain ⟨other, _, rfl⟩ := List.mem_map.mp listed
        exact Transaction.hasAnyBinding_stripBinding other
      rw [plain, Bool.and_false, if_neg Bool.false_ne_true]

/-- Behind a built coinbase, the ledger takes admitted transactions exactly when they are
mineable together. -/
theorem applyBlock_template_iff (settled : chain.Settled) (ledgerSound : chain.ledger.Sound)
    (sound : C.Sound) (acceptable : ∀ tx ∈ txs, chain.precheckTxTyped tx = .ok ())
    (apart : ((txs.flatMap Transaction.inputs).map Input.commit).Nodup) {coinbase : Transaction}
    (built : buildCoinbase C r s miner (chain.templateReward txs) chain.nextHeight
      chain.proofCtx = .ok coinbase) :
    (∃ trial, chain.ledger.applyBlock (BlockBody.aggregate P ((coinbase :: txs).map
        (Transaction.inShape (chain.bindingActiveAt chain.nextHeight)))) chain.nextHeight
        (subsidyAt chain.ledger chain.nextHeight) chain.proofCtx = (.ok (), trial)) ↔
      outputBlind P r miner • P.generatorH ≠ 0 ∧ chain.ledger.Mineable chain.nextHeight
        (subsidyAt chain.ledger chain.nextHeight) (coinbase :: txs) := by
  obtain ⟨output, kernel, paid, signed⟩ := minerPaid_inShape settled sound built
  have admitted : ∀ tx ∈ txs.map (Transaction.inShape (chain.bindingActiveAt chain.nextHeight)),
      chain.ledger.Admitted chain.nextHeight chain.proofCtx tx := by
    intro tx listed
    obtain ⟨other, member, rfl⟩ := List.mem_map.mp listed
    exact admitted_inShape settled (acceptable other member)
  have shapes := chain.ledger.mineable_map_inShape chain.nextHeight
    (subsidyAt chain.ledger chain.nextHeight) (chain.bindingActiveAt chain.nextHeight)
    (coinbase :: txs)
  simp only [LedgerState.applyBlock_ok_iff ledgerSound.tracks, visibleBody_template settled]
  rw [← shapes, ← signed, List.map_cons]
  constructor
  · rintro ⟨_, found, offset, staged, valid, _⟩
    obtain rfl := Option.some.inj
      (valid.coinbaseFound.symm.trans (paid.kernel_found admitted).2)
    exact paid.mineable_of_valid ledgerSound admitted valid
  · rintro ⟨verified, mineable⟩
    have due : chain.templateReward txs = LedgerState.coinbaseDue (BlockBody.aggregate P
        (coinbase.inShape (chain.bindingActiveAt chain.nextHeight) ::
          txs.map (Transaction.inShape (chain.bindingActiveAt chain.nextHeight))))
        (subsidyAt chain.ledger chain.nextHeight) := by
      unfold templateReward LedgerState.coinbaseDue
      split
      · rfl
      · rw [← UInt64.toNat_inj, toNat_sum_totalFee, BlockBody.totalFee_eq, toNat_sum,
          paid.fees_eq, List.map_map]
        simp only [Function.comp_def, fees_inShape]
    rw [due] at paid
    have unspent : (((txs.map (Transaction.inShape (chain.bindingActiveAt
        chain.nextHeight))).flatMap Transaction.inputs).map Input.commit).Nodup := by
      simp only [List.map_flatMap, List.flatMap_map, inputCommits_inShape]
      rwa [List.map_flatMap] at apart
    obtain ⟨offset, staged, valid⟩ := paid.valid_of_mineable ledgerSound admitted unspent
      (wouldExceedCap_subsidyAt ledgerSound _) verified mineable
    exact ⟨_, kernel, offset, staged, valid, rfl⟩

/-- Mineable transactions are few, so that their fees do not overflow. -/
theorem fees_lt_of_mineable (acceptable : ∀ tx ∈ txs, chain.precheckTxTyped tx = .ok ())
    {coinbase : Transaction} {subsidy : UInt64}
    (mineable : chain.ledger.Mineable chain.nextHeight subsidy (coinbase :: txs)) :
    (txs.map fun tx => exactTotal tx.contents.fees).sum < 2 ^ 64 := by
  have few := mineable.kernelsFit
  rw [List.flatMap_cons, List.length_append] at few
  have bounded : ∀ kernel ∈ txs.flatMap Transaction.kernels,
      kernel.feeDarks ≤ maxKernelFeeDarks := by
    intro kernel member
    obtain ⟨tx, listed, inside⟩ := List.mem_flatMap.mp member
    exact (LedgerState.admitted_of_acceptable (acceptable tx listed)).fees kernel inside
  have total := BlockBody.fees_lt_of_few ((Nat.le_add_left _ _).trans few) bounded
  have parts : exactTotal ((txs.flatMap Transaction.kernels).map TxKernel.feeDarks) =
      (txs.map fun tx => exactTotal tx.contents.fees).sum := by
    clear few bounded total mineable acceptable
    induction txs with
    | nil => rfl
    | cons tx rest ih =>
        rw [List.flatMap_cons, List.map_append, exactTotal_append, ih, List.map_cons, List.sum_cons]
        rfl
  rwa [parts] at total

/-- A template over admitted transactions is built exactly when its coinbase is and all of them
are mineable together. -/
theorem buildTemplate_iff (timestampUnix : UInt64) (settled : chain.Settled)
    (ledgerSound : chain.ledger.Sound) (sound : C.Sound) (few : txs.length < maxTxsPerBlock)
    (acceptable : ∀ tx ∈ txs, chain.precheckTxTyped tx = .ok ())
    (apart : ((txs.flatMap Transaction.inputs).map Input.commit).Nodup) :
    (∃ template, chain.buildTemplate C r s miner txs timestampUnix = .ok template) ↔
      ∃ coinbase, buildCoinbase C r s miner (chain.templateReward txs) chain.nextHeight
          chain.proofCtx = .ok coinbase ∧
        outputBlind P r miner • P.generatorH ≠ 0 ∧
        chain.ledger.Mineable chain.nextHeight (subsidyAt chain.ledger chain.nextHeight)
          (coinbase :: txs) := by
  have all : txs.take (maxTxsPerBlock - 1) = txs := List.take_of_length_le (by omega)
  rw [buildTemplate_isOk, all, templateTxs_eq]
  constructor
  · rintro ⟨fees, coinbase, trial, summed, built, applied⟩
    have total := templateFees_eq_sum summed
    simp only [List.map_map, Function.comp_def, totalFee_inShape] at total
    rw [total] at built
    have taken := (applyBlock_template_iff settled ledgerSound sound acceptable apart built).mp
      ⟨trial, applied⟩
    exact ⟨coinbase, built, taken⟩
  · rintro ⟨coinbase, built, blind, mineable⟩
    obtain ⟨trial, applied⟩ := (applyBlock_template_iff settled ledgerSound sound acceptable apart
      built).mpr ⟨blind, mineable⟩
    have summed : chain.templateFees chain.nextHeight
        (txs.map (Transaction.inShape (chain.bindingActiveAt chain.nextHeight))) =
          .ok ((txs.map Transaction.totalFee).sum) := by
      have bounded : ∀ tx ∈ txs.map (Transaction.inShape
            (chain.bindingActiveAt chain.nextHeight)),
          ∀ kernel ∈ tx.kernels, kernel.feeDarks ≤ maxKernelFeeDarks := by
        intro tx listed
        obtain ⟨other, member, rfl⟩ := List.mem_map.mp listed
        exact (admitted_inShape settled (acceptable other member)).fees
      have total := chain.templateFees_of_bounded chain.nextHeight bounded (by
        simp only [List.map_map, Function.comp_def, fees_inShape]
        exact fees_lt_of_mineable acceptable mineable)
      simpa only [List.map_map, Function.comp_def, totalFee_inShape] using total
    exact ⟨_, coinbase, trial, summed, built, applied⟩

/-! ## Mining on a validated chain -/

/-- Full validation keeps the supply exact. -/
theorem sound_offerAll {offers : List (Block × UInt64)} {last : Chain P}
    (sound : chain.ledger.Sound) (reached : chain.offerAll offers = .ok last) :
    last.ledger.Sound := by
  induction offers generalizing chain with
  | nil =>
      obtain rfl := Except.ok.inj reached
      exact sound
  | cons offer rest ih =>
      obtain ⟨next, accepted, reachedRest⟩ := offerAll_cons_eq_ok.mp reached
      rw [applyBlock_eq sound.tracks, settle_eq_ok] at accepted
      obtain ⟨ledger, undo, judged, rfl⟩ := accepted
      have after := LedgerState.applyBlock_sound sound (chain.storedForm offer.1).body
        (chain.storedForm offer.1).header.height
        (subsidyAt chain.ledger (chain.storedForm offer.1).header.height) chain.proofCtx
      rw [(verdict_eq_ok.mp judged).applied] at after
      exact ih after reachedRest

theorem sound_of_reached {network : NetworkId} {offers : List (Block × UInt64)}
    (reached : (newFair P network).offerAll offers = .ok chain) : chain.ledger.Sound :=
  sound_offerAll (LedgerState.sound_forNetwork network) reached

theorem settled_of_reached {network : NetworkId} {offers : List (Block × UInt64)}
    (reached : (newFair P network).offerAll offers = .ok chain) : chain.Settled :=
  ((settled_newFair network).offerAll reached).1

/-- Admitted transactions that are apart spend every output once. -/
theorem spent_nodup_of_apart (acceptable : ∀ tx ∈ txs, chain.precheckTxTyped tx = .ok ())
    (apart : txs.Pairwise Mempool.Apart) :
    ((txs.flatMap Transaction.inputs).map Input.commit).Nodup := by
  rw [List.map_flatMap, List.nodup_flatMap]
  refine ⟨fun tx listed => ?_, apart⟩
  have checked := acceptable tx listed
  simp only [precheckTxTyped, LedgerState.checkTxAcceptable, Guard.bind_eq_ok,
    LedgerState.checkInputs_eq_ok] at checked
  obtain ⟨_, _, _, _, _, ⟨_, nodup⟩, _⟩ := checked
  exact nodup

/-- The selected transactions of a pool, all of them admitted, are built into a template
together exactly when the coinbase can be built, no kernel is locked, no output is created
twice, the body is small enough and the fees burned so far stay covered. -/
theorem pool_template_iff (sound : C.Sound) {network : NetworkId}
    {offers : List (Block × UInt64)} (reached : (newFair P network).offerAll offers = .ok chain)
    (calls : List Mempool.Call) {values : List Transaction}
    (enumerated : values.Perm (calls.foldl (Mempool.step P) .empty).values)
    (acceptable : ∀ tx ∈ Mempool.selectForBlock P values (maxTxsPerBlock - 1),
      chain.precheckTxTyped tx = .ok ()) :
    (∃ template, chain.buildTemplate C r s miner
        (Mempool.selectForBlock P values (maxTxsPerBlock - 1)) timestampUnix = .ok template) ↔
      ∃ coinbase, buildCoinbase C r s miner
          (chain.templateReward (Mempool.selectForBlock P values (maxTxsPerBlock - 1)))
          chain.nextHeight chain.proofCtx = .ok coinbase ∧
        outputBlind P r miner • P.generatorH ≠ 0 ∧
        chain.ledger.Mineable chain.nextHeight (subsidyAt chain.ledger chain.nextHeight)
          (coinbase :: Mempool.selectForBlock P values (maxTxsPerBlock - 1)) := by
  obtain ⟨_, length, apart, _⟩ :=
    Mempool.selectForBlock_of_run P calls enumerated (maxTxsPerBlock - 1)
  have few : (Mempool.selectForBlock P values (maxTxsPerBlock - 1)).length < maxTxsPerBlock := by
    have positive : 0 < maxTxsPerBlock := by decide
    omega
  exact buildTemplate_iff timestampUnix (settled_of_reached reached) (sound_of_reached reached)
    sound few acceptable (spent_nodup_of_apart acceptable apart)

/-- A coinbase is mineable by itself when its output is new. -/
theorem mineable_coinbase (ledgerSound : chain.ledger.Sound)
    (sound : C.Sound) {reward : UInt64} {coinbase : Transaction}
    (built : buildCoinbase C r s miner reward chain.nextHeight chain.proofCtx = .ok coinbase)
    (fresh : ∀ output ∈ coinbase.outputs, chain.ledger.utxos.get output.commit = none) :
    chain.ledger.Mineable chain.nextHeight (subsidyAt chain.ledger chain.nextHeight)
      [coinbase] := by
  obtain ⟨output, kernel, paid, _⟩ := chain.ledger.minerPaid_of_built sound built
  have burned := UInt64.le_iff_toNat_le.mp ledgerSound.burned_le
  have feeless : exactTotal coinbase.contents.fees = 0 := by
    simp [exactTotal, BlockBody.fees, Transaction.contents, paid.kernels, paid.free]
  refine ⟨?_, ?_, ?_, ?_, ?_, ?_, fun _ => ?_⟩
  · intro tx listed other inside
    obtain rfl := List.mem_singleton.mp listed
    rw [paid.kernels, List.mem_singleton] at inside
    rw [inside, paid.pinned]
    exact UInt64.le_refl _
  · simp [paid.outputs]
  · simpa using fresh
  · simp [paid.inputs]
  · simp [paid.outputs, maxBlockOutputs]
  · simp [paid.kernels, maxBlockKernels]
  · rw [List.map_singleton, List.sum_singleton, feeless]
    omega

/-- Mining does not depend on the pool: whatever it offers, a template is built as long as the
coinbase of the last attempt is new and blinded. -/
theorem template_always_built (sound : C.Sound) {network : NetworkId}
    {offers : List (Block × UInt64)} (reached : (newFair P network).offerAll offers = .ok chain)
    {draws : Nat → P.Scalar × P.Scalar} {coinbase : Transaction}
    (built : buildCoinbase C (draws 2).1 (draws 2).2 miner
      (subsidyAt chain.ledger chain.nextHeight) chain.nextHeight chain.proofCtx = .ok coinbase)
    (blinded : outputBlind P (draws 2).1 miner • P.generatorH ≠ 0)
    (fresh : ∀ output ∈ coinbase.outputs, chain.ledger.utxos.get output.commit = none)
    (extraTxs : List Transaction) :
    ∃ template dropped, chain.buildTemplateFiltering C draws miner extraTxs timestampUnix =
      .ok (template, dropped) := by
  have settled := settled_of_reached reached
  have ledgerSound := sound_of_reached reached
  have reward : chain.templateReward [] = subsidyAt chain.ledger chain.nextHeight := by
    unfold templateReward
    split
    · rfl
    · next none => exact (UInt64.le_zero_iff.mp (UInt64.not_lt.mp none)).symm
  obtain ⟨last, made⟩ := (buildTemplate_iff timestampUnix settled ledgerSound
    sound (by decide : ([] : List Transaction).length < maxTxsPerBlock)
    (fun _ listed => nomatch listed) List.nodup_nil).mpr
      ⟨coinbase, reward ▸ built, blinded, mineable_coinbase ledgerSound sound built fresh⟩
  simp only [buildTemplateFiltering]
  split
  · next template _ => exact ⟨template, [], rfl⟩
  · split
    · next template _ => exact ⟨template, _, rfl⟩
    · exact ⟨last, (chain.acceptableTxs extraTxs).2, by rw [made]; rfl⟩

/-- One admitted transaction whose kernel is locked beyond the next height keeps every other
one out of the template, and is not dropped. -/
theorem locked_empties_template (sound : C.Sound) {network : NetworkId}
    {offers : List (Block × UInt64)} (reached : (newFair P network).offerAll offers = .ok chain)
    (calls : List Mempool.Call) {values : List Transaction}
    (enumerated : values.Perm (calls.foldl (Mempool.step P) .empty).values)
    (acceptable : ∀ tx ∈ Mempool.selectForBlock P values (maxTxsPerBlock - 1),
      chain.precheckTxTyped tx = .ok ())
    {locked : Transaction} {kernel : TxKernel}
    (selected : locked ∈ Mempool.selectForBlock P values (maxTxsPerBlock - 1))
    (member : kernel ∈ locked.kernels) (later : chain.nextHeight < kernel.lockHeight)
    (draws : Nat → P.Scalar × P.Scalar) :
    chain.buildTemplateFiltering C draws miner
        (Mempool.selectForBlock P values (maxTxsPerBlock - 1)) timestampUnix =
      (chain.buildTemplate C (draws 2).1 (draws 2).2 miner [] timestampUnix).map fun template =>
        (template, []) := by
  have fails (attempt : Nat) (template : BlockTemplate) :
      chain.buildTemplate C (draws attempt).1 (draws attempt).2 miner
        (Mempool.selectForBlock P values (maxTxsPerBlock - 1)) timestampUnix ≠ .ok template := by
    intro built
    obtain ⟨coinbase, _, _, mineable⟩ := (pool_template_iff sound reached calls enumerated
      acceptable).mp ⟨template, built⟩
    exact absurd (mineable.unlocked locked (List.mem_cons_of_mem _ selected) kernel member)
      (UInt64.not_le.mpr later)
  have all : chain.acceptableTxs (Mempool.selectForBlock P values (maxTxsPerBlock - 1)) =
      (Mempool.selectForBlock P values (maxTxsPerBlock - 1), []) := by
    have passes : ∀ tx ∈ Mempool.selectForBlock P values (maxTxsPerBlock - 1),
        (chain.ledger.checkTxAcceptable tx chain.nextHeight chain.proofCtx).isOk = true := by
      intro tx listed
      have accepted := acceptable tx listed
      rw [precheckTxTyped] at accepted
      rw [accepted]
      rfl
    rw [acceptableTxs, List.filter_eq_self.mpr passes]
    congr 1
    rw [List.map_eq_nil_iff, List.filter_eq_nil_iff]
    intro tx listed
    simp [passes tx listed]
  simp only [buildTemplateFiltering, all]
  split
  · next template made => exact absurd made (fails 0 template)
  · split
    · next template made => exact absurd made (fails 1 template)
    · rfl

end Chain

namespace Sample

theorem crypto_sound : crypto.Sound where
  signs _ _ _ := rfl
  proves proved := by
    obtain ⟨rfl, rfl⟩ := Prod.mk.inj (Option.some.inj proved)
    exact ⟨rfl, rfl⟩

/-- A transaction that spends the output of value zero, locked up to a height. -/
def spendTx (lockHeight : UInt64) : Transaction where
  version := 2
  inputs := [inputOf zeroValued]
  outputs := [outputOf .plain (commitTo 0 60)]
  kernels := [kernelOf .plain 0 lockHeight 10]
  stealthOffset := none
  kernelOffset := none

theorem chain1_reached :
    (Chain.newFair primitives .devnet).offerAll [(block0, now)] = .ok chain1 := by
  have accepted : ((Chain.newFair primitives .devnet).applyBlock block0 now).1 = .ok () := by
    decide +kernel
  exact Chain.offerAll_singleton accepted

theorem selectForBlock_spendTx (lockHeight : UInt64) :
    Mempool.selectForBlock primitives [spendTx lockHeight] (maxTxsPerBlock - 1) =
      [spendTx lockHeight] := by
  simp [Mempool.selectForBlock, Mempool.pick, maxTxsPerBlock]

/-- The coinbase of the second block, drawn from 5 and 6. -/
theorem coinbase1_built : ∃ coinbase, buildCoinbase crypto 5 6 keys.address
      (subsidyAt chain1.ledger chain1.nextHeight) chain1.nextHeight chain1.proofCtx =
        .ok coinbase ∧
    ∀ output ∈ coinbase.outputs, chain1.ledger.utxos.get output.commit = none := by
  have fresh : ((buildCoinbase crypto 5 6 keys.address (subsidyAt chain1.ledger chain1.nextHeight)
      chain1.nextHeight chain1.proofCtx).toOption.any fun coinbase =>
        coinbase.outputs.all fun output =>
          decide (chain1.ledger.utxos.get output.commit = none)) = true := by
    decide +kernel
  cases built : buildCoinbase crypto 5 6 keys.address (subsidyAt chain1.ledger chain1.nextHeight)
      chain1.nextHeight chain1.proofCtx with
  | error error =>
      rw [built] at fresh
      cases fresh
  | ok coinbase =>
      rw [built] at fresh
      refine ⟨coinbase, rfl, ?_⟩
      simpa [Except.toOption] using fresh

/-- Unlocked, the transaction is mined. -/
theorem pool_template_unlocked :
    ∃ coinbase, chain1.ledger.Mineable chain1.nextHeight
      (subsidyAt chain1.ledger chain1.nextHeight)
      (coinbase :: Mempool.selectForBlock primitives [spendTx 1] (maxTxsPerBlock - 1)) := by
  have some : (chain1.buildTemplate crypto 5 6 keys.address
      (Mempool.selectForBlock primitives [spendTx 1] (maxTxsPerBlock - 1)) 0).isOk = true := by
    rw [selectForBlock_spendTx]
    decide +kernel
  have acceptable : ∀ tx ∈ Mempool.selectForBlock primitives [spendTx 1] (maxTxsPerBlock - 1),
      chain1.precheckTxTyped tx = .ok () := by
    rw [selectForBlock_spendTx]
    decide +kernel
  cases built : chain1.buildTemplate crypto 5 6 keys.address
      (Mempool.selectForBlock primitives [spendTx 1] (maxTxsPerBlock - 1)) 0 with
  | error error =>
      rw [built] at some
      cases some
  | ok template =>
      obtain ⟨coinbase, _, _, mineable⟩ := (Chain.pool_template_iff crypto_sound chain1_reached
        [.insertChecked (spendTx 1) 5] (by decide +kernel) acceptable).mp ⟨template, built⟩
      exact ⟨coinbase, mineable⟩

/-- Locked, it is not, and the pool is not asked to forget it. -/
theorem locked_empties_template_sample :
    chain1.buildTemplateFiltering crypto (fun _ => (5, 6)) keys.address
        (Mempool.selectForBlock primitives [spendTx 100] (maxTxsPerBlock - 1)) 0 =
      (chain1.buildTemplate crypto 5 6 keys.address [] 0).map fun template => (template, []) := by
  have acceptable : ∀ tx ∈ Mempool.selectForBlock primitives [spendTx 100] (maxTxsPerBlock - 1),
      chain1.precheckTxTyped tx = .ok () := by
    rw [selectForBlock_spendTx]
    decide +kernel
  have selected : spendTx 100 ∈
      Mempool.selectForBlock primitives [spendTx 100] (maxTxsPerBlock - 1) := by
    rw [selectForBlock_spendTx]
    exact List.mem_singleton.mpr rfl
  exact Chain.locked_empties_template crypto_sound chain1_reached
    [.insertChecked (spendTx 100) 5] (by decide +kernel) acceptable selected
    (List.mem_singleton.mpr rfl) (by decide +kernel) _

/-- A template is built all the same. -/
theorem template_always_built_sample :
    ∃ template dropped, chain1.buildTemplateFiltering crypto (fun _ => (5, 6)) keys.address
      [spendTx 100] 0 = .ok (template, dropped) := by
  obtain ⟨coinbase, built, fresh⟩ := coinbase1_built
  exact @Chain.template_always_built primitives crypto chain1 keys.address 0 crypto_sound _ _
    chain1_reached (fun _ => (5, 6)) _ built (by decide +kernel) fresh [spendTx 100]

end Sample

end Nightfall
