import Nightfall.Ledger.Aggregate
import Nightfall.Ledger.Utxo

/-!
# The ledger state machine

`LedgerState.applyBlock` validates a body against the current state and commits it;
`applyBlockStateOnly` replays a body that was validated before; `captureUndo` and
`rewind` leave a fork.
-/

namespace Nightfall

variable (P : Primitives)

structure LedgerState where
  height : UInt64
  utxos : UtxoSet P
  kernels : KernelAccumulator
  supply : SupplyState
  txCount : UInt64
  /-- Blocks a coinbase output must age before it can be spent. -/
  coinbaseMaturity : UInt64
  /-- First height validated under the binding rules. -/
  bindingHeight : UInt64
  deriving DecidableEq

/-- Ledger as it was before one block, plus the commitments that block created. -/
structure StateUndo where
  spent : List (Commitment × UtxoEntry)
  created : List Commitment
  kernels : KernelAccumulator
  supply : SupplyState
  txCount : UInt64
  height : UInt64
  deriving DecidableEq

inductive LedgerError where
  | emptyBlock
  | missingCoinbase
  | coinbaseInMempool
  | wrongReward (got expected : UInt64)
  | supplyCapExceeded
  | unknownInput (commit : Commitment)
  | doubleSpendWithinBlock
  | duplicateCommitment (commit : Commitment)
  | immatureCoinbaseSpend (created now : UInt64)
  | kernelLocked (untilHeight : UInt64)
  | malformedKernelExcess
  | nonCanonicalOrder
  | blockTooLarge
  | malformedOutput
  | badRangeProof
  | badKernel
  | badKernelSignature
  | badOutputSignature
  | badInputSignature
  | unbalancedBlock
  | coinbaseHeightMismatch (got expected : UInt64)
  | badCoinbaseOutputCount (got : Nat)
  | arithmeticOverflow
  | tx (index : Nat) (source : TxError)
  | supply (source : SupplyError)
  | binding (source : TxError)
  | badInputKeySignature
  | badCoinbaseOpening
  | feeOutOfRange
  deriving DecidableEq

/-- The entries a body adds at a height. -/
def BlockBody.createdEntries (body : BlockBody) (height : UInt64) :
    List (Commitment × UtxoEntry) :=
  body.outputs.map fun output =>
    (output.commit, ⟨output.outputPk, height, output.features.isCoinbase⟩)

@[simp] theorem BlockBody.createdEntries_keys (body : BlockBody) (height : UInt64) :
    (body.createdEntries height).map Prod.fst = body.outputCommits := by
  simp [BlockBody.createdEntries, BlockBody.outputCommits, Function.comp_def]

namespace LedgerState

/-- A fresh state with the network's consensus parameters. -/
def forNetwork (network : NetworkId) : LedgerState P where
  height := 0
  utxos := UtxoSet.empty
  kernels := KernelAccumulator.initial P
  supply := SupplyState.initial
  txCount := 0
  coinbaseMaturity := Nightfall.coinbaseMaturity network
  bindingHeight := network.bindingForkHeight

variable {P}

def withBindingHeight (state : LedgerState P) (height : UInt64) : LedgerState P :=
  { state with bindingHeight := height }

/-- Are the binding rules in force for a block at `height`? -/
def bindingActive (state : LedgerState P) (height : UInt64) : Bool :=
  height ≥ state.bindingHeight

def utxoRoot (state : LedgerState P) : Hash256 :=
  state.utxos.root

def kernelSum (state : LedgerState P) : Commitment :=
  state.kernels.sum

def verifySupply (state : LedgerState P) : Except SupplyError Unit :=
  verifySupplyInvariant state.utxos state.kernels state.supply

/-! ## Undo -/

/-- The undo record of a body whose inputs all exist. -/
def undoRecord (state : LedgerState P) (body : BlockBody) : StateUndo where
  spent := body.inputCommits.filterMap fun commit =>
    (state.utxos.get commit).map fun entry => (commit, entry)
  created := body.outputCommits
  kernels := state.kernels
  supply := state.supply
  txCount := state.txCount
  height := state.height

/-- What `rewind` needs to put the ledger back where it was before `body`. -/
def captureUndo (state : LedgerState P) (body : BlockBody) : Except LedgerError StateUndo := do
  Guard.eachOnce Input.commit (fun _ => .doubleSpendWithinBlock) (fun _ => .ok ())
    (fun input => Guard.refuse ((state.utxos.get input.commit).isNone)
      (.unknownInput input.commit))
    [] body.inputs
  .ok (state.undoRecord body)

/-- Inverse of applying the block `undo` was captured from. -/
def rewind (state : LedgerState P) (undo : StateUndo) : LedgerState P :=
  { state with
    utxos := (state.utxos.removeAll undo.created).insertAll undo.spent
    kernels := undo.kernels
    supply := undo.supply
    txCount := undo.txCount
    height := undo.height }

/-! ## Validation -/

/-- Below the fork the binding fields of a body are not seen. -/
def visibleBody (state : LedgerState P) (body : BlockBody) (height : UInt64) : BlockBody :=
  if !state.bindingActive height && body.hasAnyBinding then body.stripBinding else body

/-- Amount the coinbase kernel must claim: the subsidy, or the fees once it is zero. -/
def coinbaseDue (body : BlockBody) (expectedReward : UInt64) : UInt64 :=
  if expectedReward > 0 then expectedReward else body.totalFee

/-- The coinbase kernel, its amount and height, the cap and the fee range. -/
def checkCoinbase (state : LedgerState P) (body : BlockBody)
    (height expectedReward : UInt64) : Except LedgerError TxKernel := do
  Guard.refuse (body.coinbaseKernels ≠ 1) .missingCoinbase
  let coinbase ← Guard.need (body.kernels.find? isCoinbaseKernel) .missingCoinbase
  let due := coinbaseDue body expectedReward
  Guard.refuse (coinbase.rewardDarks ≠ due) (.wrongReward coinbase.rewardDarks due)
  Guard.refuse (coinbase.lockHeight ≠ height)
    (.coinbaseHeightMismatch coinbase.lockHeight height)
  Guard.refuse (state.supply.wouldExceedCap expectedReward) .supplyCapExceeded
  Guard.refuse (state.bindingActive height ∧ (checkedFeeSum body.kernels).isNone)
    .feeOutOfRange
  .ok coinbase

variable (P) in
def checkKernel (height : UInt64) (kernel : TxKernel) : Except LedgerError Unit := do
  (kernel.checkShape P).mapError fun _ => .badKernel
  Guard.refuse (¬kernel.verifySignature P) .badKernelSignature
  Guard.refuse (kernel.feature = .plain ∧ kernel.lockHeight > height)
    (.kernelLocked kernel.lockHeight)

variable (P) in
/-- The part of the output check that runs before the duplicate test. -/
def checkOutput (ctx : Bytes) (output : Output) : Except LedgerError Unit := do
  Guard.refuse ((Commitment.point P output.commit).isNone ∨ (output.outputPoint P).isNone)
    .malformedOutput
  Guard.refuse (¬P.rangeVerify output.rangeProof output.commit ctx) .badRangeProof
  Guard.refuse (¬output.verifySenderSig P) .badOutputSignature

/-- Outputs: range proof, sender signature, no collisions. -/
def checkOutputs (state : LedgerState P) (body : BlockBody) (ctx : Bytes) :
    Except LedgerError Unit :=
  Guard.eachOnce Output.commit (fun output => .duplicateCommitment output.commit)
    (checkOutput P ctx)
    (fun output => Guard.refuse (state.utxos.contains output.commit)
      (.duplicateCommitment output.commit))
    [] body.outputs

/-- One input against the entry it spends. -/
def checkInput (state : LedgerState P) (height : UInt64) (checkKeys : Bool) (input : Input) :
    Except LedgerError Unit := do
  let entry ← Guard.need (state.utxos.get input.commit) (.unknownInput input.commit)
  Guard.refuse (¬isMature entry height state.coinbaseMaturity)
    (.immatureCoinbaseSpend entry.height height)
  Guard.refuse (¬Transaction.verifyInputSignature P input entry.outputPk) .badInputSignature
  Guard.refuse (checkKeys ∧ ¬Transaction.verifyInputKey P input entry.outputPk)
    .badInputKeySignature

/-- Inputs: exist, are mature, signed, and spent only once. -/
def checkInputs (state : LedgerState P) (inputs : List Input) (height : UInt64)
    (checkKeys : Bool) : Except LedgerError Unit :=
  Guard.eachOnce Input.commit (fun _ => .doubleSpendWithinBlock) (fun _ => .ok ())
    (state.checkInput height checkKeys) [] inputs

variable (P) in
/-- The balance equation over the whole aggregate.  Returns the kernel offset point. -/
def checkBalance (body : BlockBody) : Except LedgerError P.Point := do
  let expected ← Guard.need
    (expectedExcess P body.inputCommits body.outputCommits body.totalFee body.totalReward)
    .malformedOutput
  let kernelSum ← Guard.need (body.kernelExcessSum P) .malformedKernelExcess
  let offset ← (offsetPointH P body.kernelOffset).mapError .binding
  let kernelPoint ← Guard.need (Commitment.point P kernelSum) .malformedKernelExcess
  Guard.refuse (expected ≠ kernelPoint + offset) .unbalancedBlock
  .ok offset

variable (P) in
/-- Exactly one output claims the subsidy and, under the binding rules, it opens to
the coinbase amount. -/
def checkCoinbaseOutput (body : BlockBody) (coinbase : TxKernel) (binding : Bool) :
    Except LedgerError Unit := do
  let coinbaseOutputs := body.outputs.countP fun output => output.features.isCoinbase
  Guard.refuse (coinbaseOutputs ≠ 1) (.badCoinbaseOutputCount coinbaseOutputs)
  Guard.onlyIf binding do
    let flagged ← Guard.need
      ((body.outputs.find? fun output => output.features.isCoinbase).bind
        fun output => Commitment.point P output.commit)
      .malformedOutput
    let opened := flagged - commitPublicValue P coinbase.rewardDarks
    Guard.refuse (some opened ≠ Commitment.point P coinbase.excess) .badCoinbaseOpening

variable (P) in
/-- The accumulator after a body: every excess, then the offset. -/
def stageKernels (kernels : KernelAccumulator) (body : BlockBody) (offset : P.Point) :
    Except LedgerError KernelAccumulator := do
  let added ← Guard.need (kernels.addAll P body.excesses) .malformedKernelExcess
  Guard.need (added.addOffset P offset) .malformedKernelExcess

/-- The counters after a body.  Without a subsidy nothing is minted or burned. -/
def stageSupply (supply : SupplyState) (expectedReward fees : UInt64) :
    Except LedgerError SupplyState :=
  if expectedReward > 0 then do
    let minted ← Guard.need (Machine.checkedAdd supply.totalMintedDarks expectedReward)
      .arithmeticOverflow
    let burned ← Guard.need (Machine.checkedAdd supply.totalBurnedDarks fees)
      .arithmeticOverflow
    .ok ⟨minted, burned⟩
  else .ok supply

/-- What validation hands to the commit stage. -/
structure Staged where
  kernels : KernelAccumulator
  supply : SupplyState
  undo : StateUndo

/-- Stage 1: every check of `applyBlock`, in its order, without changing the state. -/
def validate (state : LedgerState P) (body : BlockBody) (height expectedReward : UInt64)
    (ctx : Bytes) : Except LedgerError Staged := do
  let binding := state.bindingActive height
  Guard.refuse (body.outputs = []) .emptyBlock
  Guard.refuse (body.kernels = []) .missingCoinbase
  Guard.refuse (¬body.isCanonical P) .nonCanonicalOrder
  Guard.refuse body.exceedsSizeLimits .blockTooLarge
  let coinbase ← state.checkCoinbase body height expectedReward
  Guard.each (checkKernel P height) body.kernels
  state.checkOutputs body ctx
  state.checkInputs body.inputs height binding
  Guard.onlyIf binding
    ((keyBalance P body.inputs body.outputs body.kernels body.stealthOffset).mapError .binding)
  let offset ← checkBalance P body
  checkCoinbaseOutput P body coinbase binding
  let kernels ← stageKernels P state.kernels body offset
  let supply ← stageSupply state.supply expectedReward body.totalFee
  let projected ← Guard.need (state.utxos.sumAfter body.spentSet body.outputCommits)
    (.supply .malformedUtxo)
  (supplyEquationHolds P projected kernels supply).mapError .supply
  let undo ← state.captureUndo body
  .ok ⟨kernels, supply, undo⟩

/-- Stage 2: the commit. -/
def commit (state : LedgerState P) (body : BlockBody) (height : UInt64)
    (kernels : KernelAccumulator) (supply : SupplyState) : LedgerState P :=
  { state with
    utxos := (state.utxos.removeAll body.spentSet).insertAll (body.createdEntries height)
    kernels := kernels
    supply := supply
    txCount := state.txCount + UInt64.ofNat body.kernels.length
    height := height }

/-- Validate a body and, if everything checks out, commit it.  A supply failure
after the commit is rolled back with `rewind`. -/
def applyBlock (state : LedgerState P) (body : BlockBody) (height expectedReward : UInt64)
    (ctx : Bytes) : Guard.Outcome LedgerError (LedgerState P) :=
  let body := state.visibleBody body height
  match state.validate body height expectedReward ctx with
  | .error error => (.error error, state)
  | .ok staged =>
      let committed := state.commit body height staged.kernels staged.supply
      match committed.verifySupply with
      | .error error => (.error (.supply error), committed.rewind staged.undo)
      | .ok () => (.ok (), committed)

/-- The accumulator after a replayed body.  The offset counts from the fork on. -/
def stageKernelsStateOnly (state : LedgerState P) (body : BlockBody) (height : UInt64) :
    Except LedgerError KernelAccumulator := do
  let added ← Guard.need (state.kernels.addAll P body.excesses) .malformedKernelExcess
  if state.bindingActive height then do
    let offset ← (offsetPointH P body.kernelOffset).mapError .binding
    Guard.need (added.addOffset P offset) .malformedKernelExcess
  else .ok added

/-- The checks of a replay: no proofs, no signatures, no balance equation. -/
def validateStateOnly (state : LedgerState P) (body : BlockBody)
    (height expectedReward : UInt64) :
    Except LedgerError (KernelAccumulator × SupplyState) := do
  Guard.refuse (body.outputs = [] ∨ body.kernels = []) .emptyBlock
  Guard.refuse (body.coinbaseKernels ≠ 1) .missingCoinbase
  Guard.refuse (state.supply.wouldExceedCap expectedReward) .supplyCapExceeded
  Guard.eachOnce Input.commit (fun _ => .doubleSpendWithinBlock) (fun _ => .ok ())
    (fun input => Guard.refuse (¬state.utxos.contains input.commit)
      (.unknownInput input.commit))
    [] body.inputs
  let kernels ← state.stageKernelsStateOnly body height
  let supply ← stageSupply state.supply expectedReward body.totalFee
  .ok (kernels, supply)

/-- Replay a block this node already wrote to its own disk. -/
def applyBlockStateOnly (state : LedgerState P) (body : BlockBody)
    (height expectedReward : UInt64) : Guard.Outcome LedgerError (LedgerState P) :=
  match state.validateStateOnly body height expectedReward with
  | .error error => (.error error, state)
  | .ok (kernels, supply) => (.ok (), state.commit body height kernels supply)

/-! ## Mempool admission -/

/-- Is this transaction valid against the current state? -/
def checkTxAcceptable (state : LedgerState P) (tx : Transaction) (nextHeight : UInt64)
    (ctx : Bytes) : Except LedgerError Unit := do
  Guard.refuse tx.isCoinbase .coinbaseInMempool
  let binding := state.bindingActive nextHeight
  (tx.verifyStatelessRules P ctx binding).mapError (.tx 0)
  let checkKeys := binding || tx.hasFullBinding
  state.checkInputs tx.inputs nextHeight checkKeys
  Guard.each
    (fun output => Guard.refuse (state.utxos.contains output.commit)
      (.duplicateCommitment output.commit))
    tx.outputs
  Guard.each (fun kernel => Guard.refuse (kernel.feature = .coinbase) .coinbaseInMempool)
    tx.kernels

end LedgerState

end Nightfall
