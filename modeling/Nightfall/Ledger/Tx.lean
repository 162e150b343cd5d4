import Nightfall.Crypto

/-!
# Transactions

Inputs, transactions and the checks that need no chain state: shape, fee range,
the key balance and the value balance.
-/

namespace Nightfall

variable (P : Primitives)

/-- Spending reference to an existing output. -/
structure Input where
  commit : Commitment
  sig : SchnorrSig
  inputKey : Option Bytes32
  keySig : Option SchnorrSig
  deriving DecidableEq

namespace Input

def stripBinding (input : Input) : Input :=
  { input with inputKey := none, keySig := none }

def hasBinding (input : Input) : Bool :=
  input.inputKey.isSome || input.keySig.isSome

end Input

structure Transaction where
  version : UInt32
  inputs : List Input
  outputs : List Output
  kernels : List TxKernel
  stealthOffset : Option Bytes32
  kernelOffset : Option Bytes32
  deriving DecidableEq

def maxInputs : Nat := 512
def maxOutputs : Nat := 512
def maxKernels : Nat := 64

inductive TxError where
  | missingBinding
  | badInputKey
  | badInputKeySignature
  | badStealthExcess
  | keyImbalance
  | badOffset
  | feeOutOfRange
  | kernelOffsetBeforeFork
  | coinbaseOutputInTransaction
  | tooManyInputs
  | tooManyOutputs
  | noOutputs
  | badKernelCount
  | duplicateInput
  | duplicateOutput
  | malformedCommitment
  | malformedOutputKey
  | multipleCoinbaseKernels
  | coinbaseWithInputs
  | badKernel
  | badRangeProof
  | badKernelSignature
  | unbalancedTransaction
  | badInputSignature
  | badOutputSignature
  deriving DecidableEq

/-- Largest fee a single kernel may declare: the whole supply. -/
def maxKernelFeeDarks : UInt64 := maxSupplyDarks

/-! ## Sums over kernels and offsets -/

/-- Sum of the fees with every fee bounded and the sum checked. -/
def checkedFeeSum (kernels : List TxKernel) : Option UInt64 :=
  kernels.foldlM
    (fun total kernel =>
      if kernel.feeDarks > maxKernelFeeDarks then none
      else Machine.checkedAdd total kernel.feeDarks)
    0

/-- Wrapping sum of the kernel fees. -/
def wrappingFeeSum (kernels : List TxKernel) : UInt64 :=
  kernels.foldl (fun total kernel => total + kernel.feeDarks) 0

def isCoinbaseKernel (kernel : TxKernel) : Bool :=
  kernel.feature == .coinbase

def decodeOffset (offset : Option Bytes32) : Except TxError P.Scalar :=
  match offset with
  | none => .ok 0
  | some bytes => Guard.need (P.scalarFromBytes bytes) .badOffset

/-- `k·H` for a kernel offset, the identity when absent. -/
def offsetPointH (offset : Option Bytes32) : Except TxError P.Point := do
  let scalar ← decodeOffset P offset
  .ok (scalar • P.generatorH)

/-- Add two optional offsets.  An undecodable one counts as zero. -/
def addOffsets (left right : Option Bytes32) : Option Bytes32 :=
  match left, right with
  | none, none => none
  | _, _ =>
      let leftScalar := (left.bind P.scalarFromBytes).getD 0
      let rightScalar := (right.bind P.scalarFromBytes).getD 0
      some (P.scalarToBytes (leftScalar + rightScalar))

/-! ## The key balance -/

def inputKeyPoint (input : Input) : Except TxError P.Point := do
  let bytes ← Guard.need input.inputKey .missingBinding
  Guard.need (P.decompress bytes) .badInputKey

def ephemeralPoint (output : Output) : Except TxError P.Point :=
  Guard.need (P.decompress output.ephemeralPk) .malformedOutputKey

def stealthExcessPoint (kernel : TxKernel) : Except TxError P.Point :=
  Guard.need (kernel.verifiedStealthExcess P) .badStealthExcess

/-- The key balance `Σ Ki − Σ Ke = Σ X + s·G`. -/
def keyBalance (inputs : List Input) (outputs : List Output) (kernels : List TxKernel)
    (stealthOffset : Option Bytes32) : Except TxError Unit := do
  let inputKeys ← Guard.total (inputKeyPoint P) inputs
  let ephemeralKeys ← Guard.total (ephemeralPoint P) outputs
  let offset ← decodeOffset P stealthOffset
  let excesses ← Guard.total (stealthExcessPoint P) kernels
  Guard.refuse (inputKeys - ephemeralKeys ≠ offset • P.generatorG + excesses) .keyImbalance

/-! ## Whole transactions -/

namespace Transaction

def isCoinbase (tx : Transaction) : Bool :=
  tx.kernels.any isCoinbaseKernel

/-- Wrapping sum of the fees. -/
def totalFee (tx : Transaction) : UInt64 :=
  wrappingFeeSum tx.kernels

def totalReward (tx : Transaction) : UInt64 :=
  (tx.kernels.map TxKernel.rewardDarks).sum

/-- Message an input signature covers: only the commitment being spent. -/
def inputMessage (commit : Commitment) : Bytes :=
  (hashMulti P Domain.input [commit.toBytes]).toBytes

/-- Does any field of the binding rules appear? -/
def hasAnyBinding (tx : Transaction) : Bool :=
  tx.stealthOffset.isSome || tx.kernelOffset.isSome || tx.inputs.any Input.hasBinding ||
    tx.kernels.any fun kernel => kernel.stealthExcess.isSome || kernel.stealthSig.isSome

/-- Does every object carry its binding fields? -/
def hasFullBinding (tx : Transaction) : Bool :=
  (tx.inputs.all fun input => input.inputKey.isSome && input.keySig.isSome) &&
    tx.kernels.all fun kernel => kernel.stealthExcess.isSome && kernel.stealthSig.isSome

/-- The transaction id that ignores every binding field. -/
def legacyTxid (tx : Transaction) : Hash256 :=
  hashMulti P Domain.tx
    (((tx.inputs.map Input.commit).insertionSort (· ≤ ·)).map Bytes32.toBytes ++
      tx.outputs.map Output.commitmentBytes ++
      tx.kernels.map fun kernel => kernel.signingMessage P)

/-- Transaction id over the entire body. -/
def txid (tx : Transaction) : Hash256 :=
  if !tx.hasAnyBinding then tx.legacyTxid P
  else
    let inputs := tx.inputs.insertionSort fun left right => left.commit ≤ right.commit
    hashMulti P Domain.txBound
      ((inputs.map fun input => input.commit.toBytes ++ (input.inputKey.getD 0).toBytes) ++
        tx.outputs.map Output.commitmentBytes ++
        (tx.kernels.map fun kernel =>
          kernel.signingMessage P ++ (kernel.stealthExcess.getD 0).toBytes) ++
        [(tx.stealthOffset.getD 0).toBytes, (tx.kernelOffset.getD 0).toBytes])

/-- Restore the shape without binding fields. -/
def stripBinding (tx : Transaction) : Transaction :=
  { tx with
    inputs := tx.inputs.map Input.stripBinding
    kernels := tx.kernels.map TxKernel.stripBinding
    stealthOffset := none
    kernelOffset := none }

def checkedTotalFee (tx : Transaction) : Option UInt64 :=
  checkedFeeSum tx.kernels

/-- Checks that need no chain context. -/
def checkShape (tx : Transaction) : Except TxError Unit := do
  Guard.refuse (tx.inputs.length > maxInputs) .tooManyInputs
  Guard.refuse (tx.outputs.length > maxOutputs) .tooManyOutputs
  Guard.refuse (tx.kernels = [] ∨ tx.kernels.length > maxKernels) .badKernelCount
  Guard.refuse (tx.outputs = []) .noOutputs
  Guard.eachOnce Input.commit (fun _ => .duplicateInput)
    (fun _ => .ok ()) (fun _ => .ok ()) [] tx.inputs
  Guard.eachOnce Output.commit (fun _ => .duplicateOutput) (fun _ => .ok ())
    (fun output => do
      Guard.refuse ((Commitment.point P output.commit).isNone) .malformedCommitment
      Guard.refuse ((output.outputPoint P).isNone) .malformedOutputKey)
    [] tx.outputs
  let coinbaseKernels := tx.kernels.countP isCoinbaseKernel
  Guard.refuse (coinbaseKernels > 1) .multipleCoinbaseKernels
  Guard.refuse (coinbaseKernels = 1 ∧ tx.inputs ≠ []) .coinbaseWithInputs
  Guard.refuse (coinbaseKernels = 0 ∧ tx.outputs.any fun output => output.features.isCoinbase)
    .coinbaseOutputInTransaction
  Guard.each (fun kernel => (kernel.checkShape P).mapError fun _ => .badKernel) tx.kernels

/-- Range proofs, signatures and the balance equation. -/
def verifyValueBalance (tx : Transaction) (ctx : Bytes) : Except TxError Unit := do
  Guard.each
    (fun output => do
      Guard.refuse (¬P.rangeVerify output.rangeProof output.commit ctx) .badRangeProof
      Guard.refuse (¬output.verifySenderSig P) .badOutputSignature)
    tx.outputs
  Guard.each (fun kernel => Guard.refuse (¬kernel.verifySignature P) .badKernelSignature)
    tx.kernels
  let expected ← Guard.need
    (expectedExcess P (tx.inputs.map Input.commit) (tx.outputs.map Output.commit)
      tx.totalFee tx.totalReward)
    .malformedCommitment
  let excesses ← Guard.need (Commitment.sum P (tx.kernels.map TxKernel.excess))
    .malformedCommitment
  let offset ← offsetPointH P tx.kernelOffset
  Guard.refuse (expected ≠ excesses + offset) .unbalancedTransaction

/-- Verification without chain state, under the rules of a given height. -/
def verifyStatelessRules (tx : Transaction) (ctx : Bytes) (binding : Bool) :
    Except TxError Unit := do
  tx.checkShape P
  Guard.refuse (tx.checkedTotalFee.isNone) .feeOutOfRange
  Guard.refuse (!binding ∧ tx.kernelOffset.isSome) .kernelOffsetBeforeFork
  Guard.refuse (binding ∧ !tx.hasFullBinding) .missingBinding
  Guard.onlyIf (binding || tx.hasFullBinding) do
    Guard.each
      (fun kernel => Guard.refuse ((kernel.verifiedStealthExcess P).isNone) .badStealthExcess)
      tx.kernels
    keyBalance P tx.inputs tx.outputs tx.kernels tx.stealthOffset
  tx.verifyValueBalance P ctx

/-- Verify one input's binding signature against the recorded one-time key. -/
def verifyInputKey (input : Input) (outputPk : Bytes32) : Bool :=
  match input.inputKey, input.keySig with
  | some inputKey, some sig => Nightfall.verifyInputKey P input.commit inputKey outputPk sig
  | _, _ => false

/-- Verify one input's signature against the recorded one-time key. -/
def verifyInputSignature (input : Input) (outputPk : Bytes32) : Bool :=
  match P.decompress outputPk with
  | none => false
  | some ko => P.schnorrVerify ko P.generatorG (inputMessage P input.commit) input.sig

end Transaction

/-! ## What the sums are -/

theorem wrappingFeeSum_eq_sum (kernels : List TxKernel) :
    wrappingFeeSum kernels = (kernels.map TxKernel.feeDarks).sum := by
  have shifted (start : UInt64) :
      kernels.foldl (fun total kernel => total + kernel.feeDarks) start =
        start + (kernels.map TxKernel.feeDarks).sum := by
    induction kernels generalizing start with
    | nil => simp
    | cons kernel rest ih => simp [ih, add_assoc]
  simpa [wrappingFeeSum] using shifted 0

/-- The checked sum exists exactly when every fee is in range and nothing overflows. -/
theorem checkedFeeSum_eq_some {kernels : List TxKernel} {total : UInt64} :
    checkedFeeSum kernels = some total ↔
      (∀ kernel ∈ kernels, kernel.feeDarks ≤ maxKernelFeeDarks) ∧
        total.toNat = (kernels.map fun kernel => kernel.feeDarks.toNat).sum := by
  have shifted (start : UInt64) :
      kernels.foldlM
          (fun total kernel =>
            if kernel.feeDarks > maxKernelFeeDarks then none
            else Machine.checkedAdd total kernel.feeDarks)
          start = some total ↔
        (∀ kernel ∈ kernels, kernel.feeDarks ≤ maxKernelFeeDarks) ∧
          total.toNat = start.toNat + (kernels.map fun kernel => kernel.feeDarks.toNat).sum := by
    induction kernels generalizing start with
    | nil => simp [← UInt64.toNat_inj, eq_comm]
    | cons kernel rest ih =>
        simp only [List.foldlM_cons, Option.bind_eq_bind, Option.bind_eq_some_iff,
          List.mem_cons, forall_eq_or_imp, List.map_cons, List.sum_cons]
        by_cases inRange : kernel.feeDarks ≤ maxKernelFeeDarks
        · rw [if_neg (UInt64.not_lt.mpr inRange)]
          constructor
          · rintro ⟨next, added, summed⟩
            have exact := Machine.checkedAdd_eq_some.mp added
            obtain ⟨bounded, equal⟩ := (ih next).mp summed
            exact ⟨⟨inRange, bounded⟩, by omega⟩
          · rintro ⟨⟨_, bounded⟩, equal⟩
            have total_lt := total.toNat_lt
            have fits : start.toNat + kernel.feeDarks.toNat < 2 ^ 64 := by omega
            have next : (start + kernel.feeDarks).toNat =
                start.toNat + kernel.feeDarks.toNat := by
              rw [UInt64.toNat_add, Nat.mod_eq_of_lt fits]
            exact ⟨start + kernel.feeDarks, Machine.checkedAdd_eq_some.mpr next,
              (ih _).mpr ⟨bounded, by omega⟩⟩
        · rw [if_pos (UInt64.not_le.mp inRange)]
          simp [inRange]
  simpa [checkedFeeSum] using shifted 0

end Nightfall
