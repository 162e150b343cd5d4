import Nightfall.Consensus.Atomicity
import Nightfall.Runtime.Framing
import Nightfall.Runtime.Ibd

/-!
# Serving blocks

Consensus limits the counts of a block and not its bytes.  The size of a block's JSON text
is a sum over its fields, and a request for blocks is answered as long as the first block of
the range stays within the message limit.
-/

namespace Nightfall

open Utf8 (Text)

/-! ## The size of a block on the wire -/

/-- A byte array is a list of decimal numbers. -/
def bytesSize (bytes : Bytes) : Nat :=
  Json.listSize (bytes.map fun byte => Json.digitCount byte.toNat)

def arraySize (array : Bytes32) : Nat :=
  bytesSize array.toBytes

def u64Size (value : UInt64) : Nat :=
  Json.digitCount value.toNat

def optionSize {α : Type} (size : α → Nat) : Option α → Nat
  | none => 4
  | some value => size value

def SchnorrSig.jsonSize (sig : SchnorrSig) : Nat :=
  11 + (arraySize sig.r + arraySize sig.s)

def Input.jsonSize (input : Input) : Nat :=
  42 + (arraySize input.commit + input.sig.jsonSize + optionSize arraySize input.inputKey +
    optionSize SchnorrSig.jsonSize input.keySig)

def OutputFeature.jsonSize : OutputFeature → Nat
  | plain => 7
  | coinbase => 10

def Output.jsonSize (output : Output) : Nat :=
  104 + (output.features.jsonSize + arraySize output.commit + bytesSize output.rangeProof +
    arraySize output.ephemeralPk + arraySize output.outputPk +
    Json.digitCount output.viewTag.toNat + bytesSize output.payload + output.senderSig.jsonSize)

def KernelFeature.jsonSize : KernelFeature → Nat
  | plain => 7
  | coinbase => 10

def TxKernel.jsonSize (kernel : TxKernel) : Nat :=
  113 + (kernel.feature.jsonSize + u64Size kernel.feeDarks + u64Size kernel.rewardDarks +
    u64Size kernel.lockHeight + arraySize kernel.excess + kernel.excessSig.jsonSize +
    optionSize arraySize kernel.stealthExcess + optionSize SchnorrSig.jsonSize kernel.stealthSig)

def BlockBody.jsonSize (body : BlockBody) : Nat :=
  68 + (Json.listSize (body.inputs.map Input.jsonSize) +
    Json.listSize (body.outputs.map Output.jsonSize) +
    Json.listSize (body.kernels.map TxKernel.jsonSize) +
    optionSize arraySize body.stealthOffset + optionSize arraySize body.kernelOffset)

def BlockHeader.jsonSize (header : BlockHeader) : Nat :=
  132 + (Json.digitCount header.version.toNat + u64Size header.height + arraySize header.prevHash +
    arraySize header.utxoRoot + arraySize header.kernelSum + arraySize header.bodyRoot +
    u64Size header.timestampUnix + u64Size header.difficulty + u64Size header.nonce +
    u64Size header.rewardDarks)

def Block.jsonSize (block : Block) : Nat :=
  19 + (block.header.jsonSize + block.body.jsonSize)

section Sizes

theorem length_jsonOfBytes (bytes : Bytes) :
    (Json.render (jsonOfBytes bytes)).length = bytesSize bytes := by
  rw [jsonOfBytes, Json.length_render_array, List.map_map]
  simp only [Function.comp_def, Json.render, Json.length_decimal]
  rfl

@[simp] theorem length_jsonOfArray (array : Bytes32) :
    (Json.render (jsonOfArray array)).length = arraySize array :=
  length_jsonOfBytes _

@[simp] theorem length_jsonOfU64 (value : UInt64) :
    (Json.render (jsonOfU64 value)).length = u64Size value := by
  rw [jsonOfU64, Json.render, Json.length_decimal, u64Size]

theorem length_jsonOfOption {α : Type} {view : α → Json.Value} {size : α → Nat}
    (sized : ∀ value, (Json.render (view value)).length = size value) (value : Option α) :
    (Json.render (jsonOfOption view value)).length = optionSize size value := by
  cases value with
  | none => rfl
  | some value => exact sized value

theorem length_jsonOfList {α : Type} {view : α → Json.Value} {size : α → Nat}
    (sized : ∀ value, (Json.render (view value)).length = size value) (values : List α) :
    (Json.render (jsonOfList view values)).length = Json.listSize (values.map size) := by
  rw [jsonOfList, Json.length_render_array, List.map_map]
  simp only [Function.comp_def, sized]

theorem SchnorrSig.length_toJson (sig : SchnorrSig) :
    (Json.render sig.toJson).length = sig.jsonSize := by
  rw [toJson, Json.length_render_fields]
  simp only [List.map_cons, List.map_nil, List.sum_cons, List.sum_nil, length_jsonOfArray]
  change 11 + _ = _
  rw [jsonSize]
  omega

theorem Input.length_toJson (input : Input) :
    (Json.render input.toJson).length = input.jsonSize := by
  rw [toJson, Json.length_render_fields]
  simp only [List.map_cons, List.map_nil, List.sum_cons, List.sum_nil, length_jsonOfArray,
    SchnorrSig.length_toJson, length_jsonOfOption length_jsonOfArray,
    length_jsonOfOption SchnorrSig.length_toJson]
  change 42 + _ = _
  rw [jsonSize]
  omega

theorem OutputFeature.length_toJson (feature : OutputFeature) :
    (Json.render feature.toJson).length = feature.jsonSize := by
  cases feature <;> decide

theorem Output.length_toJson (output : Output) :
    (Json.render output.toJson).length = output.jsonSize := by
  have tag : (Json.render (.number output.viewTag.toNat)).length =
      Json.digitCount output.viewTag.toNat := by
    rw [Json.render, Json.length_decimal]
  rw [toJson, Json.length_render_fields]
  simp only [List.map_cons, List.map_nil, List.sum_cons, List.sum_nil, length_jsonOfArray,
    OutputFeature.length_toJson, length_jsonOfBytes, SchnorrSig.length_toJson, tag]
  change 104 + _ = _
  rw [jsonSize]
  omega

theorem KernelFeature.length_toJson (feature : KernelFeature) :
    (Json.render feature.toJson).length = feature.jsonSize := by
  cases feature <;> decide

theorem TxKernel.length_toJson (kernel : TxKernel) :
    (Json.render kernel.toJson).length = kernel.jsonSize := by
  rw [toJson, Json.length_render_fields]
  simp only [List.map_cons, List.map_nil, List.sum_cons, List.sum_nil, length_jsonOfArray,
    KernelFeature.length_toJson, length_jsonOfU64, SchnorrSig.length_toJson,
    length_jsonOfOption length_jsonOfArray, length_jsonOfOption SchnorrSig.length_toJson]
  change 113 + _ = _
  rw [jsonSize]
  omega

theorem BlockBody.length_toJson (body : BlockBody) :
    (Json.render body.toJson).length = body.jsonSize := by
  rw [toJson, Json.length_render_fields]
  simp only [List.map_cons, List.map_nil, List.sum_cons, List.sum_nil,
    length_jsonOfList Input.length_toJson, length_jsonOfList Output.length_toJson,
    length_jsonOfList TxKernel.length_toJson, length_jsonOfOption length_jsonOfArray]
  change 68 + _ = _
  rw [jsonSize]
  omega

theorem BlockHeader.length_toJson (header : BlockHeader) :
    (Json.render header.toJson).length = header.jsonSize := by
  have version : (Json.render (.number header.version.toNat)).length =
      Json.digitCount header.version.toNat := by
    rw [Json.render, Json.length_decimal]
  rw [toJson, Json.length_render_fields]
  simp only [List.map_cons, List.map_nil, List.sum_cons, List.sum_nil, length_jsonOfArray,
    length_jsonOfU64, version]
  change 132 + _ = _
  rw [jsonSize]
  omega

theorem Block.length_render (block : Block) :
    (Json.render (.object block.fields)).length = block.jsonSize := by
  rw [fields, Json.length_render_fields]
  simp only [List.map_cons, List.map_nil, List.sum_cons, List.sum_nil,
    BlockHeader.length_toJson, BlockBody.length_toJson]
  change 19 + _ = _
  rw [jsonSize]
  omega

/-- A payload is not smaller than its block. -/
theorem bytesSize_payload_le {block : Block} {output : Output}
    (member : output ∈ block.body.outputs) : bytesSize output.payload ≤ block.jsonSize := by
  have payload : bytesSize output.payload ≤ output.jsonSize := by
    unfold Output.jsonSize
    omega
  have inside : output.jsonSize ≤ (block.body.outputs.map Output.jsonSize).sum :=
    List.single_le_sum (fun _ _ => Nat.zero_le _) _ (List.mem_map_of_mem member)
  have body : (block.body.outputs.map Output.jsonSize).sum ≤ block.body.jsonSize := by
    unfold BlockBody.jsonSize Json.listSize
    omega
  have whole : block.body.jsonSize ≤ block.jsonSize := by
    unfold Block.jsonSize
    omega
  exact payload.trans (inside.trans (body.trans whole))

end Sizes

/-! ## Requests for blocks -/

variable {P : Primitives} {serde : WireSerde}

/-- The blocks that a request asks for. -/
def Chain.requested (chain : Chain P) (fromHeight : UInt64) (limit : Nat) : List Block :=
  if fromHeight.toNat < chain.firstHeight then []
  else chain.blocksFrom fromHeight.toNat (min limit maxBlocksPerRequest)

/-- The answer to `GetBlocks`, before it is sent. -/
def Chain.getBlocks (serde : WireSerde) (chain : Chain P) (fromHeight : UInt64) (limit : Nat) :
    Except WireError (List Block) :=
  fitBlocksResponse serde (chain.requested fromHeight limit)

/-- The request is answered with a prefix of the range that is empty for an empty range
only, and that fits one message. -/
def Chain.ServesBlocks (serde : WireSerde) (chain : Chain P) (fromHeight : UInt64) (limit : Nat) :
    Prop :=
  ∃ page, chain.getBlocks serde fromHeight limit = .ok page ∧
    page <+: chain.requested fromHeight limit ∧
    (chain.requested fromHeight limit ≠ [] → page ≠ []) ∧ Fits serde (.blocks page)

/-- The serializer writes `Blocks` messages as arrays of derived block texts. -/
abbrev WireSerde.Derived (serde : WireSerde) : Prop :=
  serde.Arrays fun block => Json.render (.object block.fields)

/-- A message with one block fits up to a size of the block. -/
theorem fits_single_iff (derived : serde.Derived) (block : Block) :
    Fits serde (.blocks [block]) ↔ block.jsonSize ≤ maxWirePayloadBytes - 29 := by
  rw [Fits, derived.owned, blocksText_length, List.map_singleton, List.intercalate_singleton,
    Block.length_render]
  have room : 29 ≤ maxWirePayloadBytes := by decide
  omega

theorem Chain.servesBlocks_iff (derived : serde.Derived) (chain : Chain P) (fromHeight : UInt64)
    (limit : Nat) : chain.ServesBlocks serde fromHeight limit ↔
      ∀ first ∈ (chain.requested fromHeight limit).head?,
        first.jsonSize ≤ maxWirePayloadBytes - 29 := by
  obtain ⟨keep, inside, fits, longest, answer⟩ :=
    fitBlocksResponse_eq derived (chain.requested fromHeight limit)
  unfold ServesBlocks getBlocks
  rw [answer]
  cases range : chain.requested fromHeight limit with
  | nil =>
      rw [range] at fits
      simpa using fits
  | cons first rest =>
      rw [range] at inside fits longest
      have single : Fits serde (.blocks [first]) ↔ keep ≠ 0 := by
        constructor
        · intro alone
          exact Nat.one_le_iff_ne_zero.mp (longest 1 (by simp) alone)
        · intro positive
          have order : 1 ≤ keep := Nat.one_le_iff_ne_zero.mpr positive
          exact fits_take_of_le derived order fits
      simp only [List.head?_cons, Option.mem_some_iff, forall_eq']
      rw [← fits_single_iff derived, single]
      constructor
      · rintro ⟨page, answered, -⟩ zero
        rw [if_pos ⟨zero, nofun⟩] at answered
        cases answered
      · intro positive
        refine ⟨(first :: rest).take keep, if_neg fun none => positive none.1,
          List.take_prefix _ _, fun _ => ?_, fits⟩
        simpa using positive

/-- A block fits one message exactly up to a size that consensus does not check, and a request
is answered exactly when the first block of its range does. -/
theorem blocks_served_iff (derived : serde.Derived) :
    (∀ block : Block, Fits serde (.blocks [block]) ↔
      block.jsonSize ≤ maxWirePayloadBytes - 29) ∧
    ∀ (chain : Chain P) fromHeight limit, chain.ServesBlocks serde fromHeight limit ↔
      ∀ first ∈ (chain.requested fromHeight limit).head?,
        first.jsonSize ≤ maxWirePayloadBytes - 29 :=
  ⟨fits_single_iff derived, Chain.servesBlocks_iff derived⟩

namespace Sample

/-- The sample with a hash that maps everything to zero. -/
def flatPrimitives : Primitives := { primitives with blake3 := fun _ => 0 }

def payloadOutput (payload : Bytes) : Output :=
  { outputOf .coinbase (commitTo 600000000 1) with payload := payload }

/-- A first block whose only output carries this payload. -/
def payloadBody (payload : Bytes) : BlockBody where
  inputs := []
  outputs := [payloadOutput payload]
  kernels := [kernelOf .coinbase 600000000 0 1]
  stealthOffset := none
  kernelOffset := none

def flatChain : Chain flatPrimitives := Chain.newFair flatPrimitives .devnet

/-- The ledger behind such a block. -/
def payloadLedger : LedgerState flatPrimitives :=
  (flatChain.ledger.applyBlockStateOnly (payloadBody []) 0 600000000).2

def payloadBlock (payload : Bytes) : Block where
  header := {
    version := protocolVersion
    height := 0
    prevHash := flatChain.tipHash
    utxoRoot := payloadLedger.utxoRoot
    kernelSum := payloadLedger.kernelSum
    bodyRoot := 0
    timestampUnix := 1000
    difficulty := flatChain.nextDifficulty
    nonce := 0
    rewardDarks := 600000000 }
  body := payloadBody payload

theorem payloadBlock_accepted_nil :
    (flatChain.applyBlock (payloadBlock []) now).1 = .ok () := by
  decide +kernel

theorem canonical_payloadBody (payload : Bytes) :
    (payloadBody payload).isCanonical flatPrimitives = true := by
  simp [payloadBody, BlockBody.isCanonical, BlockBody.canonicalise]

theorem checkBlock_payload (payload : Bytes) :
    flatChain.checkBlock (payloadBlock payload) now true =
      flatChain.checkBlock (payloadBlock []) now true := by
  have root : (payloadBlock payload).body.hash flatPrimitives =
    (payloadBlock []).body.hash flatPrimitives := rfl
  simp only [Chain.checkBlock, root]
  rfl

theorem valid_payload {payload : Bytes} {height reward : UInt64} {ctx : Bytes} {coinbase : TxKernel}
    {offset : flatPrimitives.Point} {staged : LedgerState.Staged}
    (valid : flatChain.ledger.Valid (payloadBody []) height reward ctx coinbase offset staged) :
    flatChain.ledger.Valid (payloadBody payload) height reward ctx coinbase offset staged where
  outputs_ne := nofun
  kernels_ne := nofun
  canonical := canonical_payloadBody payload
  size := valid.size
  oneCoinbase := valid.oneCoinbase
  coinbaseFound := valid.coinbaseFound
  reward := valid.reward
  pinned := valid.pinned
  cap := valid.cap
  fees := valid.fees
  kernels := valid.kernels
  outputs := by
    intro output member
    obtain rfl := List.mem_singleton.mp member
    exact valid.outputs (payloadOutput []) List.mem_cons_self
  created_nodup := valid.created_nodup
  created_fresh := valid.created_fresh
  spent_nodup := valid.spent_nodup
  inputs := valid.inputs
  keys := valid.keys
  balance := valid.balance
  coinbaseOutput := valid.coinbaseOutput
  stagedKernels := valid.stagedKernels
  stagedSupply := valid.stagedSupply
  equation := valid.equation
  undo := valid.undo

/-- Whatever the payload, the block is accepted. -/
theorem payloadBlock_accepted (payload : Bytes) :
    ∃ next, flatChain.applyBlock (payloadBlock payload) now = (.ok (), next) ∧
      next.blocks = [payloadBlock payload] ∧ next.firstHeight = 0 := by
  have tracked : flatChain.ledger.utxos.Tracks := (Chain.tracked_newFair .devnet).ledger
  have stored (payload : Bytes) :
    flatChain.storedForm (payloadBlock payload) = payloadBlock payload := rfl
  have visible (payload : Bytes) :
    flatChain.ledger.visibleBody (payloadBody payload) 0 = payloadBody payload := rfl
  have slim := payloadBlock_accepted_nil
  rw [Chain.applyBlock_eq tracked, stored] at slim
  rw [Chain.applyBlock_eq tracked, stored]
  cases reached : flatChain.verdict (payloadBlock []) now true with
  | error error =>
      rw [reached] at slim
      cases slim
  | ok found =>
      obtain ⟨ledger, undo⟩ := found
      have accepted := Chain.verdict_eq_ok.mp reached
      obtain ⟨coinbase, offset, staged, valid, left⟩ :=
        (LedgerState.applyBlock_ok_iff tracked).mp accepted.applied
      have again : flatChain.Accepted (payloadBlock payload) now true ledger undo := by
        refine ⟨(checkBlock_payload payload).trans accepted.checked, accepted.captured, ?_,
          accepted.utxoRoot, accepted.kernelSum⟩
        exact (LedgerState.applyBlock_ok_iff tracked).mpr
          ⟨coinbase, offset, staged, valid_payload valid, left⟩
      rw [Chain.verdict_eq_ok.mpr again]
      exact ⟨_, rfl, rfl, rfl⟩

theorem requested_single {chain : Chain flatPrimitives} {block : Block}
    (blocks : chain.blocks = [block]) (first : chain.firstHeight = 0) :
    chain.requested 0 1 = [block] := by
  simp [Chain.requested, Chain.blocksFrom, blocks, first, maxBlocksPerRequest]

theorem bytesSize_replicate (count : Nat) (positive : 0 < count) :
    bytesSize (List.replicate count 255) = 4 * count + 1 := by
  have digits : Json.digitCount (255 : UInt8).toNat = 3 := by decide
  rw [bytesSize, List.map_replicate, digits, Json.listSize, List.sum_replicate,
    List.length_replicate, smul_eq_mul, max_eq_left positive]
  omega

/-- An accepted block with two million bytes of payload is never served. -/
theorem accepted_block_unserved :
    ∃ next, flatChain.applyBlock (payloadBlock (List.replicate (2 ^ 21) 255)) now =
        (.ok (), next) ∧
      ¬Fits wireSerde (.blocks [payloadBlock (List.replicate (2 ^ 21) 255)]) ∧
      ¬next.ServesBlocks wireSerde 0 1 := by
  obtain ⟨next, accepted, blocks, first⟩ := payloadBlock_accepted (List.replicate (2 ^ 21) 255)
  have large : ¬(payloadBlock (List.replicate (2 ^ 21) 255)).jsonSize ≤
      maxWirePayloadBytes - 29 := by
    have size : bytesSize (List.replicate (2 ^ 21) 255) ≤
        (payloadBlock (List.replicate (2 ^ 21) 255)).jsonSize :=
      @bytesSize_payload_le (payloadBlock _) (payloadOutput _) List.mem_cons_self
    rw [bytesSize_replicate _ (by norm_num)] at size
    have limit : maxWirePayloadBytes - 29 = 4194274 := rfl
    omega
  refine ⟨next, accepted, fun fits => large ((fits_single_iff wireSerde_arrays _).mp fits),
    fun served => large ?_⟩
  have range := requested_single blocks first
  have small := (Chain.servesBlocks_iff wireSerde_arrays next 0 1).mp served
  rw [range] at small
  exact small _ rfl

/-- The same block without a payload fits. -/
theorem blocks_served_iff_small : Fits wireSerde (.blocks [payloadBlock []]) :=
  ((@blocks_served_iff flatPrimitives wireSerde wireSerde_arrays).1 (payloadBlock [])).mpr
    (by decide +kernel)

end Sample

end Nightfall
