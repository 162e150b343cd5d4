import Nightfall.Ledger.State

/-!
# What an accepted block satisfies

`Valid` lists every check of `LedgerState.validate`; `validate_eq_ok` says that
validation succeeds exactly when they hold.  On a set whose running sum describes
its entries the supply check behind the commit repeats the projected one, so an
accepted block is a valid one and a rejected block leaves the state alone.
-/

namespace Nightfall

variable {P : Primitives}

namespace LedgerState

/-- Everything that `validate` checks, with the values it computes on the way. -/
structure Valid (state : LedgerState P) (body : BlockBody) (height expectedReward : UInt64)
    (ctx : Bytes) (coinbase : TxKernel) (offset : P.Point) (staged : Staged) : Prop where
  outputs_ne : body.outputs ≠ []
  kernels_ne : body.kernels ≠ []
  canonical : body.isCanonical P = true
  size : body.exceedsSizeLimits = false
  oneCoinbase : body.coinbaseKernels = 1
  coinbaseFound : body.kernels.find? isCoinbaseKernel = some coinbase
  reward : coinbase.rewardDarks = coinbaseDue body expectedReward
  pinned : coinbase.lockHeight = height
  cap : state.supply.wouldExceedCap expectedReward = false
  fees : state.bindingActive height = true → (checkedFeeSum body.kernels).isSome
  kernels : ∀ kernel ∈ body.kernels, checkKernel P height kernel = .ok ()
  outputs : ∀ output ∈ body.outputs, checkOutput P ctx output = .ok ()
  created_nodup : body.outputCommits.Nodup
  created_fresh : ∀ commit ∈ body.outputCommits, state.utxos.get commit = none
  spent_nodup : body.inputCommits.Nodup
  inputs : ∀ input ∈ body.inputs,
    state.checkInput height (state.bindingActive height) input = .ok ()
  keys : state.bindingActive height = true →
    keyBalance P body.inputs body.outputs body.kernels body.stealthOffset = .ok ()
  balance : checkBalance P body = .ok offset
  coinbaseOutput : checkCoinbaseOutput P body coinbase (state.bindingActive height) = .ok ()
  stagedKernels : stageKernels P state.kernels body offset = .ok staged.kernels
  stagedSupply : stageSupply state.supply expectedReward body.totalFee = .ok staged.supply
  equation : ∃ projected, state.utxos.sumAfter body.spentSet body.outputCommits =
      some projected ∧
    supplyEquationHolds P projected staged.kernels staged.supply = .ok ()
  undo : state.captureUndo body = .ok staged.undo

theorem checkCoinbase_eq_ok {state : LedgerState P} {body : BlockBody}
    {height expectedReward : UInt64} {coinbase : TxKernel} :
    state.checkCoinbase body height expectedReward = .ok coinbase ↔
      body.coinbaseKernels = 1 ∧ body.kernels.find? isCoinbaseKernel = some coinbase ∧
        coinbase.rewardDarks = coinbaseDue body expectedReward ∧
        coinbase.lockHeight = height ∧
        state.supply.wouldExceedCap expectedReward = false ∧
        (state.bindingActive height = true → (checkedFeeSum body.kernels).isSome) := by
  simp only [checkCoinbase, Guard.bind_eq_ok, Guard.refuse_eq_ok, Guard.need_eq_ok,
    not_not, not_and, Option.isNone_iff_eq_none, ← Option.isSome_iff_ne_none,
    Bool.not_eq_true, Except.ok.injEq]
  constructor
  · rintro ⟨_, one, _, found, _, reward, _, pinned, _, cap, _, fees, rfl⟩
    exact ⟨one, found, reward, pinned, cap, fees⟩
  · rintro ⟨one, found, reward, pinned, cap, fees⟩
    exact ⟨(), one, coinbase, found, (), reward, (), pinned, (), cap, (), fees, rfl⟩

theorem checkOutputs_eq_ok {state : LedgerState P} {body : BlockBody} {ctx : Bytes}
    {result : Unit} :
    state.checkOutputs body ctx = .ok result ↔
      (∀ output ∈ body.outputs, checkOutput P ctx output = .ok ()) ∧
        body.outputCommits.Nodup ∧
        ∀ commit ∈ body.outputCommits, state.utxos.get commit = none := by
  simp only [checkOutputs, Guard.eachOnce_eq_ok, Guard.refuse_eq_ok,
    UtxoSet.contains_eq_isSome, Bool.not_eq_true, Option.isSome_eq_false_iff,
    Option.isNone_iff_eq_none, BlockBody.outputCommits, List.forall_mem_map]
  constructor
  · rintro ⟨checks, nodup⟩
    exact ⟨fun output member => (checks output member).1, nodup,
      fun output member => (checks output member).2⟩
  · rintro ⟨checks, nodup, fresh⟩
    exact ⟨fun output member => ⟨checks output member, fresh output member⟩, nodup⟩

theorem checkInputs_eq_ok {state : LedgerState P} {inputs : List Input} {height : UInt64}
    {checkKeys : Bool} {result : Unit} :
    state.checkInputs inputs height checkKeys = .ok result ↔
      (∀ input ∈ inputs, state.checkInput height checkKeys input = .ok ()) ∧
        (inputs.map Input.commit).Nodup := by
  simp [checkInputs]

/-- A checked input exists, is mature and is signed. -/
theorem checkInput_eq_ok {state : LedgerState P} {height : UInt64} {checkKeys : Bool}
    {input : Input} {result : Unit} :
    state.checkInput height checkKeys input = .ok result ↔
      ∃ entry, state.utxos.get input.commit = some entry ∧
        isMature entry height state.coinbaseMaturity = true ∧
        Transaction.verifyInputSignature P input entry.outputPk = true ∧
        (checkKeys = true → Transaction.verifyInputKey P input entry.outputPk = true) := by
  simp [checkInput]

theorem captureUndo_eq_ok {state : LedgerState P} {body : BlockBody} {undo : StateUndo} :
    state.captureUndo body = .ok undo ↔
      (∀ commit ∈ body.inputCommits, (state.utxos.get commit).isSome) ∧
        body.inputCommits.Nodup ∧ undo = state.undoRecord body := by
  simp only [captureUndo, Guard.bind_eq_ok, Guard.eachOnce_eq_ok, Guard.refuse_eq_ok,
    true_and, Except.ok.injEq, BlockBody.inputCommits, List.forall_mem_map,
    Bool.not_eq_true, Option.isNone_eq_false_iff]
  constructor
  · rintro ⟨_, ⟨present, nodup⟩, rfl⟩
    exact ⟨present, nodup, rfl⟩
  · rintro ⟨present, nodup, rfl⟩
    exact ⟨(), ⟨present, nodup⟩, rfl⟩

/-- Validation succeeds exactly when every check does. -/
theorem validate_eq_ok {state : LedgerState P} {body : BlockBody}
    {height expectedReward : UInt64} {ctx : Bytes} {staged : Staged} :
    state.validate body height expectedReward ctx = .ok staged ↔
      ∃ coinbase offset,
        Valid state body height expectedReward ctx coinbase offset staged := by
  simp only [validate, Guard.bind_eq_ok, Guard.refuse_eq_ok, Guard.need_eq_ok,
    Guard.mapError_eq_ok, Guard.each_eq_ok, Guard.onlyIf_eq_ok, checkCoinbase_eq_ok,
    checkOutputs_eq_ok, checkInputs_eq_ok, Bool.not_eq_true, Except.ok.injEq]
  constructor
  · rintro ⟨_, outputs_ne, _, kernels_ne, _, canonical, _, size, coinbase,
      ⟨one, found, reward, pinned, cap, fees⟩, _, kernels, _, ⟨outputs, nodup, fresh⟩,
      _, ⟨inputs, spentNodup⟩, _, keys, offset, balance, _, coinbaseOutput,
      stagedKernels, kernelsStaged, stagedSupply, supplyStaged, projected, sums,
      _, equation, undo, captured, rfl⟩
    refine ⟨coinbase, offset, outputs_ne, kernels_ne, by simpa using canonical, size, one,
      found, reward, pinned, cap, fees, kernels, outputs, nodup, fresh, spentNodup, inputs,
      keys, balance, coinbaseOutput, kernelsStaged, supplyStaged,
      ⟨projected, sums, equation⟩, captured⟩
  · rintro ⟨coinbase, offset, valid⟩
    obtain ⟨projected, sums, equation⟩ := valid.equation
    exact ⟨(), valid.outputs_ne, (), valid.kernels_ne, (), by simpa using valid.canonical,
      (), valid.size, coinbase,
      ⟨valid.oneCoinbase, valid.coinbaseFound, valid.reward, valid.pinned, valid.cap,
        valid.fees⟩,
      (), valid.kernels, (), ⟨valid.outputs, valid.created_nodup, valid.created_fresh⟩,
      (), ⟨valid.inputs, valid.spent_nodup⟩, (), valid.keys, offset, valid.balance,
      (), valid.coinbaseOutput, staged.kernels, valid.stagedKernels,
      staged.supply, valid.stagedSupply, projected, sums, (), equation,
      staged.undo, valid.undo, rfl⟩

theorem Valid.spent_present {state : LedgerState P} {body : BlockBody}
    {height expectedReward : UInt64} {ctx : Bytes} {coinbase : TxKernel} {offset : P.Point}
    {staged : Staged}
    (valid : Valid state body height expectedReward ctx coinbase offset staged) :
    ∀ commit ∈ body.inputCommits, (state.utxos.get commit).isSome :=
  (captureUndo_eq_ok.mp valid.undo).1

/-! ## The set after a commit -/

/-- The unspent set after spending and creating. -/
def utxosAfter (state : LedgerState P) (body : BlockBody) (height : UInt64) : UtxoSet P :=
  (state.utxos.removeAll body.spentSet).insertAll (body.createdEntries height)

theorem utxosAfter_tracks {state : LedgerState P} (tracks : state.utxos.Tracks)
    (body : BlockBody) (height : UInt64) : (state.utxosAfter body height).Tracks :=
  (tracks.removeAll _).insertAll _

/-- A body that spends what is there and creates what is not moves the running sum by
exactly the projected amount. -/
theorem utxosAfter_commitmentSum {state : LedgerState P} (tracks : state.utxos.Tracks)
    {body : BlockBody} (height : UInt64) (spentNodup : body.inputCommits.Nodup)
    (present : ∀ commit ∈ body.inputCommits, (state.utxos.get commit).isSome)
    (createdNodup : body.outputCommits.Nodup)
    (fresh : ∀ commit ∈ body.outputCommits, state.utxos.get commit = none)
    {projected : P.Point}
    (sums : state.utxos.sumAfter body.spentSet body.outputCommits = some projected) :
    (state.utxosAfter body height).commitmentSum = some projected := by
  obtain ⟨total, spent, created, stated, spentSum, createdSum, rfl⟩ :=
    UtxoSet.sumAfter_eq_some.mp sums
  obtain ⟨encoded, rfl⟩ := UtxoSet.WellEncoded.of_commitmentSum tracks stated
  have setNodup : body.spentSet.Nodup := body.spentSet_perm.nodup_iff.mpr spentNodup
  have setPresent : ∀ commit ∈ body.spentSet, (state.utxos.get commit).isSome := by
    intro commit member
    exact present commit (BlockBody.mem_spentSet.mp member)
  have removed := UtxoSet.sum_removeAll state.utxos setNodup setPresent spentSum
  have stillFresh : ∀ commit ∈ (body.createdEntries height).map Prod.fst,
      (state.utxos.removeAll body.spentSet).get commit = none := by
    intro commit member
    rw [BlockBody.createdEntries_keys] at member
    rw [UtxoSet.get_removeAll, fresh commit member, ite_self]
  have inserted := UtxoSet.sum_insertAll (state.utxos.removeAll body.spentSet)
    (by simpa using createdNodup) stillFresh (by simpa using createdSum)
  have wellEncoded : (state.utxosAfter body height).WellEncoded := by
    refine (encoded.removeAll _).insertAll ?_
    rw [BlockBody.createdEntries_keys]
    exact (Commitment.sum_eq_some P).mp createdSum |>.1
  rw [(utxosAfter_tracks tracks body height).commitmentSum_of_wellEncoded wellEncoded,
    utxosAfter, inserted, removed]

/-- The equation that validation projects is the one the committed state satisfies. -/
theorem Valid.verifySupply_commit {state : LedgerState P} {body : BlockBody}
    {height expectedReward : UInt64} {ctx : Bytes} {coinbase : TxKernel} {offset : P.Point}
    {staged : Staged} (tracks : state.utxos.Tracks)
    (valid : Valid state body height expectedReward ctx coinbase offset staged) :
    (state.commit body height staged.kernels staged.supply).verifySupply = .ok () := by
  obtain ⟨projected, sums, equation⟩ := valid.equation
  have sumAfterCommit := utxosAfter_commitmentSum tracks height valid.spent_nodup
    valid.spent_present valid.created_nodup valid.created_fresh sums
  have committedSum :
      (state.commit body height staged.kernels staged.supply).utxos.commitmentSum =
        some projected := sumAfterCommit
  simp only [verifySupply, verifySupplyInvariant, Guard.bind_eq_ok, Guard.need_eq_ok]
  exact ⟨projected, committedSum, equation⟩

/-! ## Acceptance -/

/-- On a tracked set, applying a block is validation followed by the commit: the
supply check behind the commit never fails. -/
theorem applyBlock_eq {state : LedgerState P} (tracks : state.utxos.Tracks)
    (body : BlockBody) (height expectedReward : UInt64) (ctx : Bytes) :
    state.applyBlock body height expectedReward ctx =
      match state.validate (state.visibleBody body height) height expectedReward ctx with
      | .error error => (.error error, state)
      | .ok staged =>
          (.ok (), state.commit (state.visibleBody body height) height staged.kernels
            staged.supply) := by
  simp only [applyBlock]
  cases validated : state.validate (state.visibleBody body height) height expectedReward ctx with
  | error error => rfl
  | ok staged =>
      obtain ⟨coinbase, offset, valid⟩ := validate_eq_ok.mp validated
      simp only [valid.verifySupply_commit tracks]

/-- An accepted block is valid and was committed. -/
theorem applyBlock_ok_iff {state next : LedgerState P} (tracks : state.utxos.Tracks)
    {body : BlockBody} {height expectedReward : UInt64} {ctx : Bytes} :
    state.applyBlock body height expectedReward ctx = (.ok (), next) ↔
      ∃ coinbase offset staged,
        Valid state (state.visibleBody body height) height expectedReward ctx coinbase
          offset staged ∧
        next = state.commit (state.visibleBody body height) height staged.kernels
          staged.supply := by
  rw [applyBlock_eq tracks]
  constructor
  · intro applied
    split at applied
    next error rejected => simp at applied
    next staged validated =>
        obtain ⟨coinbase, offset, valid⟩ := validate_eq_ok.mp validated
        exact ⟨coinbase, offset, staged, valid, (Prod.mk.inj applied).2.symm⟩
  · rintro ⟨coinbase, offset, staged, valid, rfl⟩
    rw [validate_eq_ok.mpr ⟨coinbase, offset, valid⟩]

/-- A rejected block leaves the ledger as it was. -/
theorem applyBlock_atomic {state : LedgerState P} (tracks : state.utxos.Tracks)
    (body : BlockBody) (height expectedReward : UInt64) (ctx : Bytes) :
    Guard.Atomic (fun ledger => ledger.applyBlock body height expectedReward ctx) state := by
  intro error rejected
  simp only [applyBlock_eq tracks] at rejected ⊢
  split at rejected
  · rfl
  · simp at rejected

/-- Whatever the verdict, the running sum keeps describing the entries. -/
theorem applyBlock_tracks {state : LedgerState P} (tracks : state.utxos.Tracks)
    (body : BlockBody) (height expectedReward : UInt64) (ctx : Bytes) :
    (state.applyBlock body height expectedReward ctx).2.utxos.Tracks := by
  rw [applyBlock_eq tracks]
  split
  · exact tracks
  · exact utxosAfter_tracks tracks _ _

end LedgerState

end Nightfall
