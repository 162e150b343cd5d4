import Nightfall.Ledger.Accepted

/-!
# The supply equation over whole runs

The balance equation of one accepted block moves `Σ UTXO − Σ kernels` by exactly the
minted reward minus the burned fees, as an integer multiple of the value generator.
Amounts are below the group order, so the saturating difference in the code's own
check cannot hide `burned > minted`, and the exact equation holds in every state.
-/

namespace Nightfall

variable {P : Primitives}

/-! ## The coinbase kernel carries the whole reward -/

/-- With a single element satisfying `p`, a sum that vanishes elsewhere is its value. -/
theorem sum_map_eq_of_countP_eq_one {α A : Type*} [AddMonoid A] (p : α → Bool) (value : α → A)
    {elements : List α} {found : α} (one : elements.countP p = 1)
    (first : elements.find? p = some found)
    (vanishes : ∀ element ∈ elements, p element = false → value element = 0) :
    (elements.map value).sum = value found := by
  induction elements with
  | nil => simp at one
  | cons head rest ih =>
      cases matched : p head with
      | true =>
          obtain rfl : head = found := by simpa [matched] using first
          have none_left : rest.countP p = 0 := by simpa [matched] using one
          have zeros : (rest.map value).sum = 0 := by
            apply List.sum_eq_zero
            simp only [List.mem_map]
            rintro _ ⟨element, member, rfl⟩
            have unmatched : ¬p element = true := List.countP_eq_zero.mp none_left element member
            exact vanishes element (List.mem_cons_of_mem _ member) (by simpa using unmatched)
          simp [zeros]
      | false =>
          have headZero := vanishes head List.mem_cons_self matched
          have restSum := ih (by simpa [matched] using one) (by simpa [matched] using first)
            fun element member => vanishes element (List.mem_cons_of_mem _ member)
          simp [headZero, restSum]

/-- Plain kernels claim no reward. -/
theorem rewardDarks_of_checkKernel {height : UInt64} {kernel : TxKernel}
    (checked : LedgerState.checkKernel P height kernel = .ok ())
    (notCoinbase : isCoinbaseKernel kernel = false) : kernel.rewardDarks = 0 := by
  simp only [LedgerState.checkKernel, Guard.bind_eq_ok, Guard.mapError_eq_ok] at checked
  obtain ⟨_, shape, _⟩ := checked
  cases feature : kernel.feature with
  | coinbase => simp [isCoinbaseKernel, feature] at notCoinbase
  | plain => simpa [TxKernel.checkShape, feature] using (show _ ∧ _ by
      simpa [TxKernel.checkShape, feature] using shape).1

namespace LedgerState

section Block

variable {state : LedgerState P} {body : BlockBody} {height expectedReward : UInt64}
  {ctx : Bytes} {coinbase : TxKernel} {offset : P.Point} {staged : Staged}

theorem Valid.totalReward_eq
    (valid : Valid state body height expectedReward ctx coinbase offset staged) :
    body.totalReward = coinbaseDue body expectedReward := by
  rw [← valid.reward]
  exact sum_map_eq_of_countP_eq_one isCoinbaseKernel TxKernel.rewardDarks valid.oneCoinbase
    valid.coinbaseFound fun kernel member => rewardDarks_of_checkKernel (valid.kernels kernel member)

/-! ## One block -/

/-- The balance equation, with the amounts as integers. -/
theorem Valid.balance_points
    (valid : Valid state body height expectedReward ctx coinbase offset staged) :
    ∃ spent created excess, Commitment.sum P body.inputCommits = some spent ∧
      Commitment.sum P body.outputCommits = some created ∧
      Commitment.sum P body.excesses = some excess ∧
      created - spent + ((body.totalFee.toNat : ℤ) - body.totalReward.toNat) • P.generatorG =
        excess + offset := by
  have balance := valid.balance
  simp only [checkBalance, Guard.bind_eq_ok, Guard.need_eq_ok, Guard.mapError_eq_ok,
    Guard.refuse_eq_ok, not_not, Except.ok.injEq, expectedExcess, Option.bind_eq_bind,
    Option.bind_eq_some_iff, Option.some.injEq, BlockBody.kernelExcessSum,
    Option.map_eq_some_iff] at balance
  obtain ⟨expected, ⟨created, createdSum, spent, spentSum, rfl⟩, kernelSum,
    ⟨excess, excessSum, rfl⟩, decoded, _, kernelPoint, kernelDecoded, _, equal, rfl⟩ := balance
  rw [Commitment.point_fromPoint, Option.some.injEq] at kernelDecoded
  subst kernelDecoded
  refine ⟨spent, created, excess, spentSum, createdSum, excessSum, ?_⟩
  rw [← equal, commitPublicValue_eq_zsmul, commitPublicValue_eq_zsmul, sub_smul]
  abel

/-- A valid block moves `Σ UTXO − Σ kernels` by `(reward − fee)·G`. -/
theorem Valid.difference_moves
    (valid : Valid state body height expectedReward ctx coinbase offset staged)
    {total kernelSum : P.Point} (stated : state.utxos.commitmentSum = some total)
    (kernelStated : state.kernels.point P = some kernelSum) :
    ∃ projected nextKernelSum,
      state.utxos.sumAfter body.spentSet body.outputCommits = some projected ∧
      staged.kernels.point P = some nextKernelSum ∧
      projected - nextKernelSum = total - kernelSum +
        ((body.totalReward.toNat : ℤ) - body.totalFee.toNat) • P.generatorG := by
  obtain ⟨spent, created, excess, spentSum, createdSum, excessSum, balance⟩ :=
    valid.balance_points
  obtain ⟨added, addedAll, offsetAdded⟩ :
      ∃ added, state.kernels.addAll P body.excesses = some added ∧
        added.addOffset P offset = some staged.kernels := by
    simpa [stageKernels] using valid.stagedKernels
  obtain ⟨points, pointsSum, addedPoint⟩ := KernelAccumulator.point_addAll kernelStated addedAll
  obtain rfl : excess = points := Option.some.inj (excessSum.symm.trans pointsSum)
  have nextPoint := KernelAccumulator.point_addOffset addedPoint offsetAdded
  have setSum : Commitment.sum P body.spentSet = some spent := by
    rw [Commitment.sum_eq_some] at spentSum ⊢
    refine ⟨fun commit member => spentSum.1 commit (BlockBody.mem_spentSet.mp member), ?_⟩
    rw [spentSum.2, (body.spentSet_perm.map (Commitment.pointOrZero P)).sum_eq]
  refine ⟨total - spent + created, _, ?_, nextPoint, ?_⟩
  · exact UtxoSet.sumAfter_eq_some.mpr
      ⟨total, spent, created, stated, setSum, createdSum, rfl⟩
  · have moved : created - spent = excess + offset -
        ((body.totalFee.toNat : ℤ) - body.totalReward.toNat) • P.generatorG := by
      rw [← balance]
      abel
    calc
      total - spent + created - (kernelSum + excess + offset)
          = total - kernelSum + (created - spent) - (excess + offset) := by abel
      _ = total - kernelSum -
            ((body.totalFee.toNat : ℤ) - body.totalReward.toNat) • P.generatorG := by
          rw [moved]
          abel
      _ = total - kernelSum +
            ((body.totalReward.toNat : ℤ) - body.totalFee.toNat) • P.generatorG := by
          rw [sub_eq_add_neg, ← neg_smul, neg_sub]

end Block

/-! ## The invariant -/

/-- The counters of a state as an integer. -/
def netSupply (supply : SupplyState) : ℤ :=
  (supply.totalMintedDarks.toNat : ℤ) - supply.totalBurnedDarks.toNat

/-- The running sum is right, nothing is malformed, the counters are in order and the
supply equation holds without saturation. -/
structure Sound (state : LedgerState P) : Prop where
  tracks : state.utxos.Tracks
  encoded : state.utxos.WellEncoded
  burned_le : state.supply.totalBurnedDarks ≤ state.supply.totalMintedDarks
  minted_le : state.supply.totalMintedDarks ≤ maxSupplyDarks
  equation : ∃ kernelSum, state.kernels.point P = some kernelSum ∧
    state.utxos.sum - kernelSum = netSupply state.supply • P.generatorG

theorem sound_forNetwork (network : NetworkId) : (forNetwork P network).Sound where
  tracks := UtxoSet.tracks_empty
  encoded := UtxoSet.wellEncoded_empty
  burned_le := by simp [forNetwork, SupplyState.initial]
  minted_le := by simp [forNetwork, SupplyState.initial]
  equation := ⟨0, by simp [forNetwork], by
    simp [forNetwork, SupplyState.initial, netSupply, UtxoSet.empty]⟩

theorem Sound.commitmentSum_eq {state : LedgerState P} (sound : state.Sound) :
    state.utxos.commitmentSum = some state.utxos.sum :=
  sound.tracks.commitmentSum_of_wellEncoded sound.encoded

/-- The saturating difference agrees with the integer one only when it does not
saturate: below the group order the point tells them apart. -/
theorem burned_le_of_equation {supply : SupplyState}
    (exact : commitPublicValue P supply.circulating = netSupply supply • P.generatorG) :
    supply.totalBurnedDarks ≤ supply.totalMintedDarks := by
  rw [commitPublicValue_eq_zsmul, SupplyState.circulating, Machine.toNat_saturatingSub] at exact
  have mintedBound := supply.totalMintedDarks.toNat_lt
  have burnedBound := supply.totalBurnedDarks.toNat_lt
  rw [UInt64.le_iff_toNat_le]
  have vanishes : (netSupply supply - (supply.totalMintedDarks.toNat -
      supply.totalBurnedDarks.toNat : ℕ)) • P.generatorG = 0 := by
    rw [sub_smul, exact, sub_self]
  have zero := eq_zero_of_zsmul_generatorG (by rw [abs_lt, netSupply]; omega) vanishes
  rw [netSupply] at zero
  omega

/-- What staging does to the net supply: the reward comes in and the fees go out, and
without a subsidy the coinbase claims exactly the fees. -/
theorem netSupply_stageSupply {supply next : SupplyState} {body : BlockBody}
    {expectedReward : UInt64}
    (staged : stageSupply supply expectedReward body.totalFee = .ok next) :
    netSupply next = netSupply supply +
      ((coinbaseDue body expectedReward).toNat - (body.totalFee.toNat : ℤ)) := by
  unfold stageSupply at staged
  split at staged
  next positive =>
      simp only [Guard.bind_eq_ok, Guard.need_eq_ok, Machine.checkedAdd_eq_some,
        Except.ok.injEq] at staged
      obtain ⟨minted, mintedExact, burned, burnedExact, rfl⟩ := staged
      simp only [netSupply, coinbaseDue, if_pos positive, mintedExact, burnedExact]
      push_cast
      ring
  next zero =>
      obtain rfl := Except.ok.inj staged
      simp [coinbaseDue, if_neg zero]

/-- A valid block keeps the invariant. -/
theorem Valid.sound_commit {state : LedgerState P} {body : BlockBody}
    {height expectedReward : UInt64} {ctx : Bytes} {coinbase : TxKernel} {offset : P.Point}
    {staged : Staged} (sound : state.Sound)
    (valid : Valid state body height expectedReward ctx coinbase offset staged) :
    (state.commit body height staged.kernels staged.supply).Sound := by
  obtain ⟨kernelSum, kernelStated, equation⟩ := sound.equation
  obtain ⟨projected, nextKernelSum, sums, nextStated, moved⟩ :=
    valid.difference_moves sound.commitmentSum_eq kernelStated
  obtain ⟨checked, checkedSums, holds⟩ := valid.equation
  obtain rfl : projected = checked := Option.some.inj (sums.symm.trans checkedSums)
  obtain ⟨checkedKernelSum, checkedStated, balanced, capped⟩ :=
    (supplyEquationHolds_eq_ok).mp holds
  obtain rfl : nextKernelSum = checkedKernelSum :=
    Option.some.inj (nextStated.symm.trans checkedStated)
  have exactly : projected - nextKernelSum = netSupply staged.supply • P.generatorG := by
    rw [moved, equation, netSupply_stageSupply valid.stagedSupply, valid.totalReward_eq,
      add_smul]
  have tracks := utxosAfter_tracks sound.tracks body height
  have committed := utxosAfter_commitmentSum sound.tracks height valid.spent_nodup
    valid.spent_present valid.created_nodup valid.created_fresh sums
  obtain ⟨encoded, sumIs⟩ := UtxoSet.WellEncoded.of_commitmentSum tracks committed
  refine ⟨tracks, encoded, ?_, capped, nextKernelSum, nextStated, ?_⟩
  · exact burned_le_of_equation (balanced.symm.trans exactly)
  · rw [sumIs] at exactly
    exact exactly

/-- Every call of `applyBlock` keeps the invariant, whatever its verdict. -/
theorem applyBlock_sound {state : LedgerState P} (sound : state.Sound) (body : BlockBody)
    (height expectedReward : UInt64) (ctx : Bytes) :
    (state.applyBlock body height expectedReward ctx).2.Sound := by
  rw [applyBlock_eq sound.tracks]
  split
  next error rejected => exact sound
  next staged validated =>
      obtain ⟨coinbase, offset, valid⟩ := validate_eq_ok.mp validated
      exact valid.sound_commit sound

/-! ## Runs -/

/-- The arguments of one call of `applyBlock`. -/
structure BlockCall where
  body : BlockBody
  height : UInt64
  expectedReward : UInt64
  ctx : Bytes

/-- Make the calls in order, keeping whatever state each one leaves behind. -/
def runCalls (state : LedgerState P) (calls : List BlockCall) : LedgerState P :=
  calls.foldl
    (fun current call =>
      (current.applyBlock call.body call.height call.expectedReward call.ctx).2)
    state

theorem runCalls_sound {state : LedgerState P} (sound : state.Sound)
    (calls : List BlockCall) : (state.runCalls calls).Sound := by
  induction calls generalizing state with
  | nil => exact sound
  | cons call rest ih => exact ih (applyBlock_sound sound _ _ _ _)

/-- The sum that walks the whole map is the running sum. -/
theorem Sound.commitmentSumByWalking_eq {state : LedgerState P} (sound : state.Sound) :
    state.utxos.commitmentSumByWalking = some state.utxos.sum := by
  unfold UtxoSet.commitmentSumByWalking
  rw [UtxoSet.foldlM_add_eq_some]
  refine ⟨state.utxos.sum, (Commitment.sum_eq_some P).mpr ⟨?_, sound.tracks.sum_eq⟩, by simp⟩
  intro commit member
  have present : ((state.utxos.get commit).isSome) := by
    rw [← UtxoSet.contains_eq_isSome]
    exact Std.ExtTreeMap.mem_iff_contains.mp (Std.ExtTreeMap.mem_keys.mp member)
  obtain ⟨entry, found⟩ := Option.isSome_iff_exists.mp present
  exact sound.encoded commit entry found

/-- In every state that any calls reach from genesis, burned ≤ minted ≤ the cap, and
`Σ UTXO − Σ kernels = (minted − burned)·G` with the plain integer difference. -/
theorem supply_exact_of_runCalls (network : NetworkId) (calls : List BlockCall) :
    let state := (forNetwork P network).runCalls calls
    state.supply.totalBurnedDarks ≤ state.supply.totalMintedDarks ∧
      state.supply.totalMintedDarks ≤ maxSupplyDarks ∧
      ∃ utxoSum kernelSum,
        state.utxos.commitmentSumByWalking = some utxoSum ∧
        Commitment.point P state.kernels.sum = some kernelSum ∧
        utxoSum - kernelSum =
          ((state.supply.totalMintedDarks.toNat : ℤ) -
            state.supply.totalBurnedDarks.toNat) • P.generatorG := by
  intro state
  have sound : state.Sound := runCalls_sound (sound_forNetwork network) calls
  obtain ⟨kernelSum, kernelStated, equation⟩ := sound.equation
  exact ⟨sound.burned_le, sound.minted_le, state.utxos.sum, kernelSum,
    sound.commitmentSumByWalking_eq, kernelStated, equation⟩

end LedgerState

end Nightfall
