import Nightfall.Ledger.Tx

/-!
# Block bodies

A block stores one canonically sorted set of inputs, one of outputs and one of
kernels.  This module has the body, its canonical order, its hash and the
aggregation of transactions into a body.
-/

namespace Nightfall

variable (P : Primitives)

def maxBlockInputs : Nat := 4096
def maxBlockOutputs : Nat := 4096
def maxBlockKernels : Nat := 1024

/-- The aggregated contents of a block. -/
structure BlockBody where
  inputs : List Input
  outputs : List Output
  kernels : List TxKernel
  stealthOffset : Option Bytes32
  kernelOffset : Option Bytes32
  deriving DecidableEq

namespace BlockBody

def empty : BlockBody := ⟨[], [], [], none, none⟩

def exceedsSizeLimits (body : BlockBody) : Bool :=
  body.inputs.length > maxBlockInputs || body.outputs.length > maxBlockOutputs ||
    body.kernels.length > maxBlockKernels

def hasAnyBinding (body : BlockBody) : Bool :=
  body.stealthOffset.isSome || body.kernelOffset.isSome ||
    body.inputs.any Input.hasBinding ||
    body.kernels.any fun kernel => kernel.stealthExcess.isSome || kernel.stealthSig.isSome

/-- Restore the shape without binding fields. -/
def stripBinding (body : BlockBody) : BlockBody :=
  { body with
    inputs := body.inputs.map Input.stripBinding
    kernels := body.kernels.map TxKernel.stripBinding
    stealthOffset := none
    kernelOffset := none }

/-- Sort every set; the sort is stable. -/
def canonicalise (body : BlockBody) : BlockBody :=
  { body with
    inputs := body.inputs.insertionSort fun left right => left.commit ≤ right.commit
    outputs := body.outputs.insertionSort fun left right => left.commit ≤ right.commit
    kernels := body.kernels.insertionSort fun left right => left.id P ≤ right.id P }

def isCanonical (body : BlockBody) : Bool :=
  body.canonicalise P = body

/-- Append one transaction, adding up the offsets. -/
def absorb (body : BlockBody) (tx : Transaction) : BlockBody where
  inputs := body.inputs ++ tx.inputs
  outputs := body.outputs ++ tx.outputs
  kernels := body.kernels ++ tx.kernels
  stealthOffset := addOffsets P body.stealthOffset tx.stealthOffset
  kernelOffset := addOffsets P body.kernelOffset tx.kernelOffset

/-- Merge transactions into one aggregate and sort it. -/
def aggregate (txs : List Transaction) : BlockBody :=
  (txs.foldl (absorb P) empty).canonicalise P

/-- Wrapping sum of the fees. -/
def totalFee (body : BlockBody) : UInt64 :=
  wrappingFeeSum body.kernels

def totalReward (body : BlockBody) : UInt64 :=
  (body.kernels.map TxKernel.rewardDarks).sum

def coinbaseKernels (body : BlockBody) : Nat :=
  body.kernels.countP isCoinbaseKernel

/-- The bytes of an input inside the body hash. -/
def inputHashPart (bound : Bool) (input : Input) : Bytes :=
  let legacy := input.commit.toBytes ++ input.sig.r.toBytes ++ input.sig.s.toBytes
  if bound then
    let sig := input.keySig.getD ⟨0, 0⟩
    legacy ++ (input.inputKey.getD 0).toBytes ++ sig.r.toBytes ++ sig.s.toBytes
  else legacy

/-- The bytes of an output inside the body hash. -/
def outputHashPart (output : Output) : Bytes :=
  output.commitmentBytes ++ output.senderSig.r.toBytes ++ output.senderSig.s.toBytes

/-- The bytes of a kernel inside the body hash. -/
def kernelHashPart (bound : Bool) (kernel : TxKernel) : Bytes :=
  let legacy := kernel.signingMessage P ++ kernel.excessSig.r.toBytes ++
    kernel.excessSig.s.toBytes
  if bound then
    let sig := kernel.stealthSig.getD ⟨0, 0⟩
    legacy ++ (kernel.stealthExcess.getD 0).toBytes ++ sig.r.toBytes ++ sig.s.toBytes
  else legacy

/-- Hash over the whole aggregate, committed to by the block header.  A body without
binding fields hashes under the older domain. -/
def hash (body : BlockBody) : Hash256 :=
  let bound := body.hasAnyBinding
  let parts := body.inputs.map (inputHashPart bound) ++ body.outputs.map outputHashPart ++
    body.kernels.map (kernelHashPart P bound)
  if bound then
    hashMulti P Domain.txbodyBound
      (parts ++ [(body.stealthOffset.getD 0).toBytes, (body.kernelOffset.getD 0).toBytes])
  else hashMulti P Domain.txbody parts

/-- Sum of every kernel excess in the block. -/
def kernelExcessSum (body : BlockBody) : Option Commitment :=
  (Commitment.sum P (body.kernels.map TxKernel.excess)).map (Commitment.fromPoint P)

/-! ## Keys of the three sets -/

def inputCommits (body : BlockBody) : List Commitment :=
  body.inputs.map Input.commit

def outputCommits (body : BlockBody) : List Commitment :=
  body.outputs.map Output.commit

def excesses (body : BlockBody) : List Commitment :=
  body.kernels.map TxKernel.excess

/-- The spent commitments in the order of the sorted set the code collects. -/
def spentSet (body : BlockBody) : List Commitment :=
  body.inputCommits.insertionSort (· ≤ ·)

theorem spentSet_perm (body : BlockBody) : body.spentSet.Perm body.inputCommits :=
  List.perm_insertionSort _ _

@[simp] theorem mem_spentSet {body : BlockBody} {commit : Commitment} :
    commit ∈ body.spentSet ↔ commit ∈ body.inputCommits :=
  body.spentSet_perm.mem_iff

@[simp] theorem stripBinding_inputCommits (body : BlockBody) :
    body.stripBinding.inputCommits = body.inputCommits := by
  simp [inputCommits, stripBinding, Input.stripBinding, Function.comp_def]

@[simp] theorem stripBinding_outputs (body : BlockBody) :
    body.stripBinding.outputs = body.outputs := rfl

@[simp] theorem stripBinding_outputCommits (body : BlockBody) :
    body.stripBinding.outputCommits = body.outputCommits := rfl

@[simp] theorem stripBinding_excesses (body : BlockBody) :
    body.stripBinding.excesses = body.excesses := by
  simp [excesses, stripBinding, TxKernel.stripBinding, Function.comp_def]

@[simp] theorem stripBinding_kernels_length (body : BlockBody) :
    body.stripBinding.kernels.length = body.kernels.length := by
  simp [stripBinding]

@[simp] theorem stripBinding_totalFee (body : BlockBody) :
    body.stripBinding.totalFee = body.totalFee := by
  simp [totalFee, wrappingFeeSum_eq_sum, stripBinding, TxKernel.stripBinding,
    Function.comp_def]

@[simp] theorem stripBinding_coinbaseKernels (body : BlockBody) :
    body.stripBinding.coinbaseKernels = body.coinbaseKernels := by
  have same : isCoinbaseKernel ∘ TxKernel.stripBinding = isCoinbaseKernel := rfl
  simp [coinbaseKernels, stripBinding, List.countP_map, same]

@[simp] theorem stripBinding_hasAnyBinding (body : BlockBody) :
    body.stripBinding.hasAnyBinding = false := by
  simp [hasAnyBinding, stripBinding, Input.stripBinding, Input.hasBinding,
    TxKernel.stripBinding]

@[simp] theorem stripBinding_stripBinding (body : BlockBody) :
    body.stripBinding.stripBinding = body.stripBinding := by
  simp [stripBinding, Input.stripBinding, TxKernel.stripBinding, Function.comp_def]

end BlockBody

end Nightfall
