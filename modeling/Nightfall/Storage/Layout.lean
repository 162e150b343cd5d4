import Nightfall.Library.Json
import Nightfall.Library.PrefixCode
import Nightfall.Storage.Codec

/-!
# The layouts that serde derives

The JSON value and the bincode bytes of every stored type, field by field.  Texts of JSON
files are compact here; white space between the tokens changes nothing that is read.
-/

namespace Nightfall

open Json (Value)
open PrefixCode (IsPrefixCode)

/-! ## JSON -/

/-- A byte array is a list of decimal numbers. -/
def jsonOfBytes (bytes : Bytes) : Value :=
  .array (bytes.map fun byte => .number byte.toNat)

def jsonOfArray (array : Bytes32) : Value :=
  jsonOfBytes array.toBytes

def jsonOfU64 (value : UInt64) : Value :=
  .number value.toNat

def jsonOfOption {α : Type} (view : α → Value) : Option α → Value
  | none => .null
  | some value => view value

def jsonOfList {α : Type} (view : α → Value) (values : List α) : Value :=
  .array (values.map view)

def SchnorrSig.toJson (sig : SchnorrSig) : Value :=
  .object [(ascii "r", jsonOfArray sig.r), (ascii "s", jsonOfArray sig.s)]

def Input.toJson (input : Input) : Value :=
  .object [
    (ascii "commit", jsonOfArray input.commit),
    (ascii "sig", input.sig.toJson),
    (ascii "input_key", jsonOfOption jsonOfArray input.inputKey),
    (ascii "key_sig", jsonOfOption SchnorrSig.toJson input.keySig)]

def OutputFeature.toJson : OutputFeature → Value
  | plain => .text (ascii "plain")
  | coinbase => .text (ascii "coinbase")

def Output.toJson (output : Output) : Value :=
  .object [
    (ascii "features", output.features.toJson),
    (ascii "commit", jsonOfArray output.commit),
    (ascii "range_proof", jsonOfBytes output.rangeProof),
    (ascii "ephemeral_pk", jsonOfArray output.ephemeralPk),
    (ascii "output_pk", jsonOfArray output.outputPk),
    (ascii "view_tag", .number output.viewTag.toNat),
    (ascii "payload", jsonOfBytes output.payload),
    (ascii "sender_sig", output.senderSig.toJson)]

def KernelFeature.toJson : KernelFeature → Value
  | plain => .text (ascii "plain")
  | coinbase => .text (ascii "coinbase")

def TxKernel.toJson (kernel : TxKernel) : Value :=
  .object [
    (ascii "feature", kernel.feature.toJson),
    (ascii "fee_darks", jsonOfU64 kernel.feeDarks),
    (ascii "reward_darks", jsonOfU64 kernel.rewardDarks),
    (ascii "lock_height", jsonOfU64 kernel.lockHeight),
    (ascii "excess", jsonOfArray kernel.excess),
    (ascii "excess_sig", kernel.excessSig.toJson),
    (ascii "stealth_excess", jsonOfOption jsonOfArray kernel.stealthExcess),
    (ascii "stealth_sig", jsonOfOption SchnorrSig.toJson kernel.stealthSig)]

def BlockBody.toJson (body : BlockBody) : Value :=
  .object [
    (ascii "inputs", jsonOfList Input.toJson body.inputs),
    (ascii "outputs", jsonOfList Output.toJson body.outputs),
    (ascii "kernels", jsonOfList TxKernel.toJson body.kernels),
    (ascii "stealth_offset", jsonOfOption jsonOfArray body.stealthOffset),
    (ascii "kernel_offset", jsonOfOption jsonOfArray body.kernelOffset)]

def BlockHeader.toJson (header : BlockHeader) : Value :=
  .object [
    (ascii "version", .number header.version.toNat),
    (ascii "height", jsonOfU64 header.height),
    (ascii "prev_hash", jsonOfArray header.prevHash),
    (ascii "utxo_root", jsonOfArray header.utxoRoot),
    (ascii "kernel_sum", jsonOfArray header.kernelSum),
    (ascii "body_root", jsonOfArray header.bodyRoot),
    (ascii "timestamp_unix", jsonOfU64 header.timestampUnix),
    (ascii "difficulty", jsonOfU64 header.difficulty),
    (ascii "nonce", jsonOfU64 header.nonce),
    (ascii "reward_darks", jsonOfU64 header.rewardDarks)]

/-- The fields of a block. -/
def Block.fields (block : Block) : List (Bytes × Value) :=
  [(ascii "header", block.header.toJson), (ascii "body", block.body.toJson)]

def Block.toJson (block : Block) : Value :=
  .object block.fields

def CompactHeader.fields (header : CompactHeader) : List (Bytes × Value) :=
  [(ascii "height", jsonOfU64 header.height),
    (ascii "hash", jsonOfArray header.hash),
    (ascii "prev_hash", jsonOfArray header.prevHash),
    (ascii "timestamp_unix", jsonOfU64 header.timestampUnix),
    (ascii "difficulty", jsonOfU64 header.difficulty)]

def NetworkId.toJson : NetworkId → Value
  | mainnet => .text (ascii "mainnet")
  | testnet => .text (ascii "testnet")
  | devnet => .text (ascii "devnet")

def ChainMeta.toJson (record : ChainMeta) : Value :=
  .object [
    (ascii "network", record.network.toJson),
    (ascii "genesis_hash", .text record.genesisHash),
    (ascii "block_count", .number record.blockCount),
    (ascii "protocol_version", .number record.protocolVersion.toNat),
    (ascii "validated_by", .text record.validatedBy),
    (ascii "validated_tip", .text record.validatedTip),
    (ascii "validated_bytes", .number record.validatedBytes),
    (ascii "first_height", .number record.firstHeight),
    (ascii "pruned", .bool record.pruned),
    (ascii "horizon_work", .text record.horizonWork),
    (ascii "validated_horizon_bytes", .number record.validatedHorizonBytes),
    (ascii "validated_headers_bytes", .number record.validatedHeadersBytes)]

def HorizonUtxo.toJson (utxo : HorizonUtxo) : Value :=
  .object [
    (ascii "commit", .text utxo.commit),
    (ascii "output_pk", .text utxo.outputPk),
    (ascii "height", jsonOfU64 utxo.height),
    (ascii "is_coinbase", .bool utxo.isCoinbase)]

def HorizonFile.toJson (file : HorizonFile) : Value :=
  .object [
    (ascii "height", jsonOfU64 file.height),
    (ascii "minted", jsonOfU64 file.minted),
    (ascii "burned", jsonOfU64 file.burned),
    (ascii "tx_count", jsonOfU64 file.txCount),
    (ascii "coinbase_maturity", jsonOfU64 file.coinbaseMaturity),
    (ascii "kernel_sum", .text file.kernelSum),
    (ascii "kernel_count", jsonOfU64 file.kernelCount),
    (ascii "utxos", jsonOfList HorizonUtxo.toJson file.utxos)]

def SnapshotManifest.toJson (manifest : SnapshotManifest) : Value :=
  .object [
    (ascii "v", .number manifest.version.toNat),
    (ascii "network", manifest.network.toJson),
    (ascii "genesis", .text manifest.genesis),
    (ascii "tip", .text manifest.tip),
    (ascii "blocks", .number manifest.blocks),
    (ascii "format", .text manifest.format)]

/-! ### The values determine what was written -/

section Json

theorem jsonOfBytes_injective : Function.Injective jsonOfBytes := by
  intro left right same
  refine List.map_injective_iff.mpr ?_ (Value.array.inj same)
  intro byte other equal
  exact UInt8.toNat_inj.mp (Value.number.inj equal)

@[simp] theorem jsonOfBytes_inj {left right : Bytes} :
    jsonOfBytes left = jsonOfBytes right ↔ left = right :=
  jsonOfBytes_injective.eq_iff

@[simp] theorem jsonOfArray_inj {left right : Bytes32} :
    jsonOfArray left = jsonOfArray right ↔ left = right :=
  (jsonOfBytes_injective.comp Bytes32.toBytes_injective).eq_iff

@[simp] theorem jsonOfU64_inj {left right : UInt64} :
    jsonOfU64 left = jsonOfU64 right ↔ left = right := by
  simp [jsonOfU64, UInt64.toNat_inj]

theorem jsonOfOption_inj {α : Type} {view : α → Value} (injective : Function.Injective view)
    (present : ∀ value, view value ≠ .null) {left right : Option α} :
    jsonOfOption view left = jsonOfOption view right ↔ left = right := by
  cases left with
  | none =>
      cases right with
      | none => simp
      | some value => simp [jsonOfOption, (present value).symm]
  | some value =>
      cases right with
      | none => simp [jsonOfOption, present value]
      | some other => simp [jsonOfOption, injective.eq_iff]

theorem jsonOfList_inj {α : Type} {view : α → Value} (injective : Function.Injective view)
    {left right : List α} : jsonOfList view left = jsonOfList view right ↔ left = right := by
  rw [jsonOfList, jsonOfList, Value.array.injEq]
  exact (List.map_injective_iff.mpr injective).eq_iff

@[simp] theorem jsonOfOption_array_inj {left right : Option Bytes32} :
    jsonOfOption jsonOfArray left = jsonOfOption jsonOfArray right ↔ left = right :=
  jsonOfOption_inj (fun _ _ => jsonOfArray_inj.mp) fun _ => nofun

theorem SchnorrSig.toJson_injective : Function.Injective SchnorrSig.toJson := by
  rintro ⟨r, s⟩ ⟨r', s'⟩ same
  simpa [SchnorrSig.toJson] using same

@[simp] theorem SchnorrSig.toJson_inj {left right : SchnorrSig} :
    left.toJson = right.toJson ↔ left = right :=
  SchnorrSig.toJson_injective.eq_iff

@[simp] theorem jsonOfOption_sig_inj {left right : Option SchnorrSig} :
    jsonOfOption SchnorrSig.toJson left = jsonOfOption SchnorrSig.toJson right ↔ left = right :=
  jsonOfOption_inj SchnorrSig.toJson_injective fun _ => nofun

theorem Input.toJson_injective : Function.Injective Input.toJson := by
  rintro ⟨commit, sig, inputKey, keySig⟩ ⟨commit', sig', inputKey', keySig'⟩ same
  simpa [Input.toJson] using same

@[simp] theorem OutputFeature.toJson_inj {left right : OutputFeature} :
    left.toJson = right.toJson ↔ left = right := by
  cases left <;> cases right <;> simp [OutputFeature.toJson, ascii]

theorem Output.toJson_injective : Function.Injective Output.toJson := by
  rintro ⟨⟩ ⟨⟩ same
  simpa [Output.toJson, UInt8.toNat_inj] using same

@[simp] theorem KernelFeature.toJson_inj {left right : KernelFeature} :
    left.toJson = right.toJson ↔ left = right := by
  cases left <;> cases right <;> simp [KernelFeature.toJson, ascii]

theorem TxKernel.toJson_injective : Function.Injective TxKernel.toJson := by
  rintro ⟨⟩ ⟨⟩ same
  simpa [TxKernel.toJson] using same

theorem BlockBody.toJson_injective : Function.Injective BlockBody.toJson := by
  rintro ⟨⟩ ⟨⟩ same
  simpa [BlockBody.toJson, jsonOfList_inj Input.toJson_injective,
    jsonOfList_inj Output.toJson_injective, jsonOfList_inj TxKernel.toJson_injective] using same

theorem BlockHeader.toJson_injective : Function.Injective BlockHeader.toJson := by
  rintro ⟨⟩ ⟨⟩ same
  simpa [BlockHeader.toJson, UInt32.toNat_inj] using same

theorem Block.fields_injective : Function.Injective Block.fields := by
  rintro ⟨header, body⟩ ⟨header', body'⟩ same
  simpa [Block.fields, BlockHeader.toJson_injective.eq_iff, BlockBody.toJson_injective.eq_iff]
    using same

theorem CompactHeader.fields_injective : Function.Injective CompactHeader.fields := by
  rintro ⟨⟩ ⟨⟩ same
  simpa [CompactHeader.fields] using same

@[simp] theorem NetworkId.toJson_inj {left right : NetworkId} :
    left.toJson = right.toJson ↔ left = right := by
  cases left <;> cases right <;> simp [NetworkId.toJson, ascii]

theorem ChainMeta.toJson_injective : Function.Injective ChainMeta.toJson := by
  rintro ⟨⟩ ⟨⟩ same
  simpa [ChainMeta.toJson, UInt32.toNat_inj] using same

theorem HorizonUtxo.toJson_injective : Function.Injective HorizonUtxo.toJson := by
  rintro ⟨⟩ ⟨⟩ same
  simpa [HorizonUtxo.toJson] using same

theorem HorizonFile.toJson_injective : Function.Injective HorizonFile.toJson := by
  rintro ⟨⟩ ⟨⟩ same
  simpa [HorizonFile.toJson, jsonOfList_inj HorizonUtxo.toJson_injective] using same

end Json

/-! ## Bincode -/

def bincodeOfBytes (bytes : Bytes) : Bytes :=
  PrefixCode.list (fun byte => [byte]) bytes

def SchnorrSig.bincode (sig : SchnorrSig) : Bytes :=
  sig.r.toBytes ++ sig.s.toBytes

def Input.bincode (input : Input) : Bytes :=
  input.commit.toBytes ++ input.sig.bincode ++ PrefixCode.option Bytes32.toBytes input.inputKey ++
    PrefixCode.option SchnorrSig.bincode input.keySig

/-- The index of a variant. -/
def OutputFeature.bincode (feature : OutputFeature) : Bytes :=
  u32LeBytes feature.byte.toUInt32

def Output.bincode (output : Output) : Bytes :=
  output.features.bincode ++ output.commit.toBytes ++ bincodeOfBytes output.rangeProof ++
    output.ephemeralPk.toBytes ++ output.outputPk.toBytes ++ [output.viewTag] ++
    bincodeOfBytes output.payload ++ output.senderSig.bincode

def KernelFeature.bincode : KernelFeature → Bytes
  | plain => u32LeBytes 0
  | coinbase => u32LeBytes 1

def TxKernel.bincode (kernel : TxKernel) : Bytes :=
  kernel.feature.bincode ++ u64LeBytes kernel.feeDarks ++ u64LeBytes kernel.rewardDarks ++
    u64LeBytes kernel.lockHeight ++ kernel.excess.toBytes ++ kernel.excessSig.bincode ++
    PrefixCode.option Bytes32.toBytes kernel.stealthExcess ++
    PrefixCode.option SchnorrSig.bincode kernel.stealthSig

def BlockBody.bincode (body : BlockBody) : Bytes :=
  PrefixCode.list Input.bincode body.inputs ++ PrefixCode.list Output.bincode body.outputs ++
    PrefixCode.list TxKernel.bincode body.kernels ++
    PrefixCode.option Bytes32.toBytes body.stealthOffset ++
    PrefixCode.option Bytes32.toBytes body.kernelOffset

def BlockHeader.bincode (header : BlockHeader) : Bytes :=
  u32LeBytes header.version ++ (u64LeBytes header.height ++ header.prevHash.toBytes ++
    header.utxoRoot.toBytes ++ header.kernelSum.toBytes ++ header.bodyRoot.toBytes ++
    u64LeBytes header.timestampUnix ++ u64LeBytes header.difficulty ++ u64LeBytes header.nonce ++
    u64LeBytes header.rewardDarks)

def Block.bincode (block : Block) : Bytes :=
  block.header.bincode ++ block.body.bincode

def LegacyInput.bincode (input : LegacyInput) : Bytes :=
  input.commit.toBytes ++ input.sig.bincode

def LegacyKernel.bincode (kernel : LegacyKernel) : Bytes :=
  kernel.feature.bincode ++ u64LeBytes kernel.feeDarks ++ u64LeBytes kernel.rewardDarks ++
    u64LeBytes kernel.lockHeight ++ kernel.excess.toBytes ++ kernel.excessSig.bincode

def LegacyBody.bincode (body : LegacyBody) : Bytes :=
  PrefixCode.list LegacyInput.bincode body.inputs ++
    PrefixCode.list Output.bincode body.outputs ++
    PrefixCode.list LegacyKernel.bincode body.kernels

def LegacyBlock.bincode (legacy : LegacyBlock) : Bytes :=
  legacy.header.bincode ++ legacy.body.bincode

/-! ### The bytes determine what was written -/

section Bincode

theorem toBytes_prefixCode : IsPrefixCode Bytes32.toBytes :=
  PrefixCode.isPrefixCode_of_length Bytes32.length_toBytes Bytes32.toBytes_injective

theorem u64_prefixCode : IsPrefixCode u64LeBytes :=
  PrefixCode.isPrefixCode_of_length length_u64LeBytes u64LeBytes_injective

theorem u32_prefixCode : IsPrefixCode u32LeBytes :=
  PrefixCode.isPrefixCode_of_length length_u32LeBytes u32LeBytes_injective

theorem byte_prefixCode : IsPrefixCode fun byte : UInt8 => [byte] :=
  PrefixCode.isPrefixCode_of_length (fun _ => rfl) fun _ _ same => (List.cons.inj same).1

theorem bytes_prefixCode : IsPrefixCode bincodeOfBytes :=
  byte_prefixCode.list

theorem SchnorrSig.prefixCode : IsPrefixCode SchnorrSig.bincode := by
  rintro ⟨⟩ ⟨⟩ after after' same
  simp only [SchnorrSig.bincode, List.append_assoc] at same
  obtain ⟨r, same⟩ := toBytes_prefixCode _ _ _ _ same
  obtain ⟨s, same⟩ := toBytes_prefixCode _ _ _ _ same
  exact ⟨by rw [r, s], same⟩

theorem Input.prefixCode : IsPrefixCode Input.bincode := by
  rintro ⟨⟩ ⟨⟩ after after' same
  simp only [Input.bincode, List.append_assoc] at same
  obtain ⟨commit, same⟩ := toBytes_prefixCode _ _ _ _ same
  obtain ⟨sig, same⟩ := SchnorrSig.prefixCode _ _ _ _ same
  obtain ⟨inputKey, same⟩ := toBytes_prefixCode.option _ _ _ _ same
  obtain ⟨keySig, same⟩ := SchnorrSig.prefixCode.option _ _ _ _ same
  exact ⟨by rw [commit, sig, inputKey, keySig], same⟩

theorem OutputFeature.prefixCode : IsPrefixCode OutputFeature.bincode := by
  refine u32_prefixCode.comp fun left right same => ?_
  cases left <;> cases right <;> first | rfl | exact absurd same (by decide)

theorem Output.prefixCode : IsPrefixCode Output.bincode := by
  rintro ⟨⟩ ⟨⟩ after after' same
  simp only [Output.bincode, List.append_assoc] at same
  obtain ⟨features, same⟩ := OutputFeature.prefixCode _ _ _ _ same
  obtain ⟨commit, same⟩ := toBytes_prefixCode _ _ _ _ same
  obtain ⟨rangeProof, same⟩ := bytes_prefixCode _ _ _ _ same
  obtain ⟨ephemeralPk, same⟩ := toBytes_prefixCode _ _ _ _ same
  obtain ⟨outputPk, same⟩ := toBytes_prefixCode _ _ _ _ same
  obtain ⟨viewTag, same⟩ := byte_prefixCode _ _ _ _ same
  obtain ⟨payload, same⟩ := bytes_prefixCode _ _ _ _ same
  obtain ⟨senderSig, same⟩ := SchnorrSig.prefixCode _ _ _ _ same
  exact ⟨by rw [features, commit, rangeProof, ephemeralPk, outputPk, viewTag, payload, senderSig], same⟩

theorem KernelFeature.prefixCode : IsPrefixCode KernelFeature.bincode := by
  have size (feature : KernelFeature) : feature.bincode.length = 4 := by
    cases feature <;> rfl
  refine PrefixCode.isPrefixCode_of_length size fun left right same => ?_
  cases left <;> cases right <;> first | rfl | exact absurd same (by decide)

theorem TxKernel.prefixCode : IsPrefixCode TxKernel.bincode := by
  rintro ⟨⟩ ⟨⟩ after after' same
  simp only [TxKernel.bincode, List.append_assoc] at same
  obtain ⟨feature, same⟩ := KernelFeature.prefixCode _ _ _ _ same
  obtain ⟨feeDarks, same⟩ := u64_prefixCode _ _ _ _ same
  obtain ⟨rewardDarks, same⟩ := u64_prefixCode _ _ _ _ same
  obtain ⟨lockHeight, same⟩ := u64_prefixCode _ _ _ _ same
  obtain ⟨excess, same⟩ := toBytes_prefixCode _ _ _ _ same
  obtain ⟨excessSig, same⟩ := SchnorrSig.prefixCode _ _ _ _ same
  obtain ⟨stealthExcess, same⟩ := toBytes_prefixCode.option _ _ _ _ same
  obtain ⟨stealthSig, same⟩ := SchnorrSig.prefixCode.option _ _ _ _ same
  exact ⟨by rw [feature, feeDarks, rewardDarks, lockHeight, excess, excessSig, stealthExcess, stealthSig], same⟩

theorem BlockBody.prefixCode : IsPrefixCode BlockBody.bincode := by
  rintro ⟨⟩ ⟨⟩ after after' same
  simp only [BlockBody.bincode, List.append_assoc] at same
  obtain ⟨inputs, same⟩ := Input.prefixCode.list _ _ _ _ same
  obtain ⟨outputs, same⟩ := Output.prefixCode.list _ _ _ _ same
  obtain ⟨kernels, same⟩ := TxKernel.prefixCode.list _ _ _ _ same
  obtain ⟨stealthOffset, same⟩ := toBytes_prefixCode.option _ _ _ _ same
  obtain ⟨kernelOffset, same⟩ := toBytes_prefixCode.option _ _ _ _ same
  exact ⟨by rw [inputs, outputs, kernels, stealthOffset, kernelOffset], same⟩

theorem BlockHeader.prefixCode : IsPrefixCode BlockHeader.bincode := by
  rintro ⟨⟩ ⟨⟩ after after' same
  simp only [BlockHeader.bincode, List.append_assoc] at same
  obtain ⟨version, same⟩ := u32_prefixCode _ _ _ _ same
  obtain ⟨height, same⟩ := u64_prefixCode _ _ _ _ same
  obtain ⟨prevHash, same⟩ := toBytes_prefixCode _ _ _ _ same
  obtain ⟨utxoRoot, same⟩ := toBytes_prefixCode _ _ _ _ same
  obtain ⟨kernelSum, same⟩ := toBytes_prefixCode _ _ _ _ same
  obtain ⟨bodyRoot, same⟩ := toBytes_prefixCode _ _ _ _ same
  obtain ⟨timestamp, same⟩ := u64_prefixCode _ _ _ _ same
  obtain ⟨difficulty, same⟩ := u64_prefixCode _ _ _ _ same
  obtain ⟨nonce, same⟩ := u64_prefixCode _ _ _ _ same
  obtain ⟨reward, same⟩ := u64_prefixCode _ _ _ _ same
  exact ⟨by rw [version, height, prevHash, utxoRoot, kernelSum, bodyRoot, timestamp, difficulty, nonce, reward], same⟩

theorem Block.prefixCode : IsPrefixCode Block.bincode := by
  rintro ⟨⟩ ⟨⟩ after after' same
  simp only [Block.bincode, List.append_assoc] at same
  obtain ⟨header, same⟩ := BlockHeader.prefixCode _ _ _ _ same
  obtain ⟨body, same⟩ := BlockBody.prefixCode _ _ _ _ same
  exact ⟨by rw [header, body], same⟩

theorem LegacyInput.prefixCode : IsPrefixCode LegacyInput.bincode := by
  rintro ⟨⟩ ⟨⟩ after after' same
  simp only [LegacyInput.bincode, List.append_assoc] at same
  obtain ⟨commit, same⟩ := toBytes_prefixCode _ _ _ _ same
  obtain ⟨sig, same⟩ := SchnorrSig.prefixCode _ _ _ _ same
  exact ⟨by rw [commit, sig], same⟩

theorem LegacyKernel.prefixCode : IsPrefixCode LegacyKernel.bincode := by
  rintro ⟨⟩ ⟨⟩ after after' same
  simp only [LegacyKernel.bincode, List.append_assoc] at same
  obtain ⟨feature, same⟩ := KernelFeature.prefixCode _ _ _ _ same
  obtain ⟨feeDarks, same⟩ := u64_prefixCode _ _ _ _ same
  obtain ⟨rewardDarks, same⟩ := u64_prefixCode _ _ _ _ same
  obtain ⟨lockHeight, same⟩ := u64_prefixCode _ _ _ _ same
  obtain ⟨excess, same⟩ := toBytes_prefixCode _ _ _ _ same
  obtain ⟨excessSig, same⟩ := SchnorrSig.prefixCode _ _ _ _ same
  exact ⟨by rw [feature, feeDarks, rewardDarks, lockHeight, excess, excessSig], same⟩

theorem LegacyBody.prefixCode : IsPrefixCode LegacyBody.bincode := by
  rintro ⟨⟩ ⟨⟩ after after' same
  simp only [LegacyBody.bincode, List.append_assoc] at same
  obtain ⟨inputs, same⟩ := LegacyInput.prefixCode.list _ _ _ _ same
  obtain ⟨outputs, same⟩ := Output.prefixCode.list _ _ _ _ same
  obtain ⟨kernels, same⟩ := LegacyKernel.prefixCode.list _ _ _ _ same
  exact ⟨by rw [inputs, outputs, kernels], same⟩

theorem LegacyBlock.prefixCode : IsPrefixCode LegacyBlock.bincode := by
  rintro ⟨⟩ ⟨⟩ after after' same
  simp only [LegacyBlock.bincode, List.append_assoc] at same
  obtain ⟨header, same⟩ := BlockHeader.prefixCode _ _ _ _ same
  obtain ⟨body, same⟩ := LegacyBody.prefixCode _ _ _ _ same
  exact ⟨by rw [header, body], same⟩

end Bincode

/-! ## The serializers -/

/-- An object text is read back as what was written. -/
theorem isJson_object {α : Type} {fields : α → List (Bytes × Value)}
    (injective : Function.Injective fields) :
    IsJson (fun value => Json.render (.object (fields value)))
      (PrefixCode.inverse fun value => Json.render (.object (fields value))) := by
  have plain (value : α) := Json.isPlain_render (.object (fields value))
  have texts : Function.Injective fun value => Json.render (.object (fields value)) :=
    fun left right same => injective (Value.object.inj (Json.render_injective same))
  constructor
  · exact fun value => Json.render_object_cons (fields value)
  · exact fun value member => absurd (plain value 10 member) (by decide)
  · exact fun value member => absurd (plain value 13 member) (by decide)
  · exact fun value => PrefixCode.inverse_write texts value
  · intro value part inside cut
    cases read : PrefixCode.inverse (fun value => Json.render (.object (fields value))) part with
    | none => rfl
    | some other =>
        have written := PrefixCode.write_of_inverse read
        rw [← written] at inside cut
        exact absurd (congrArg (fun fields => Json.render (.object fields))
          (Json.render_object_of_prefix inside)) cut

/-- The serializers that the derive macros make, with readers that read what was written. -/
noncomputable def Serde.derived : Serde where
  blockJson block := Json.render (.object block.fields)
  blockOfJson := PrefixCode.inverse fun block : Block => Json.render (.object block.fields)
  blockJson_isJson := isJson_object Block.fields_injective
  headerJson header := Json.render (.object header.fields)
  headerOfJson := PrefixCode.inverse fun header : CompactHeader => Json.render (.object header.fields)
  headerJson_isJson := isJson_object CompactHeader.fields_injective
  blockBincode := Block.bincode
  blockOfBincode := PrefixCode.inverse Block.bincode
  blockOfBincode_blockBincode := PrefixCode.inverse_write Block.prefixCode.injective
  legacyBincode := LegacyBlock.bincode
  legacyOfBincode := PrefixCode.inverse LegacyBlock.bincode
  legacyOfBincode_legacyBincode := PrefixCode.inverse_write LegacyBlock.prefixCode.injective
  legacyBincode_version legacy := by
    rw [LegacyBlock.bincode, BlockHeader.bincode, List.append_assoc]
    exact ⟨_, rfl⟩
  metaJson record := Json.render record.toJson
  metaOfJson := PrefixCode.inverse fun record : ChainMeta => Json.render record.toJson
  metaOfJson_metaJson :=
    PrefixCode.inverse_write (Json.render_injective.comp ChainMeta.toJson_injective)
  horizonJson horizon := Json.render horizon.toJson
  horizonOfJson := PrefixCode.inverse fun horizon : HorizonFile => Json.render horizon.toJson
  horizonOfJson_horizonJson :=
    PrefixCode.inverse_write (Json.render_injective.comp HorizonFile.toJson_injective)
  horizonJson_ne_nil horizon := by
    obtain ⟨rest, shape, -⟩ := Json.render_object_cons _
    exact fun empty => absurd (shape.symm.trans empty) (List.cons_ne_nil _ _)
  snapshotJson manifest := Json.render manifest.toJson

end Nightfall
