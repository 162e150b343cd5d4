import Nightfall.Consensus.Block
import Nightfall.Library.Records
import Nightfall.Library.Text

/-!
# How a block is written to disk

A chain file holds one JSON text a line or one framed record a block.  The serializers are
a parameter: `Serde` states what reading makes of their results.  `readBlocks` gives back
the blocks that `writeBlocks` wrote, unless the first record has a length that begins like
a JSON text.
-/

namespace Nightfall

/-! ## The 1.0.x layout -/

structure LegacyInput where
  commit : Commitment
  sig : SchnorrSig

structure LegacyKernel where
  feature : KernelFeature
  feeDarks : UInt64
  rewardDarks : UInt64
  lockHeight : UInt64
  excess : Commitment
  excessSig : SchnorrSig

structure LegacyBody where
  inputs : List LegacyInput
  outputs : List Output
  kernels : List LegacyKernel

structure LegacyBlock where
  header : BlockHeader
  body : LegacyBody

namespace LegacyBlock

/-- The 1.0.x shape of a block.  Only for blocks without binding fields. -/
def fromCurrent (block : Block) : LegacyBlock where
  header := block.header
  body := {
    inputs := block.body.inputs.map fun input => ⟨input.commit, input.sig⟩
    outputs := block.body.outputs
    kernels := block.body.kernels.map fun kernel =>
      ⟨kernel.feature, kernel.feeDarks, kernel.rewardDarks, kernel.lockHeight, kernel.excess,
        kernel.excessSig⟩ }

def toCurrent (legacy : LegacyBlock) : Block where
  header := legacy.header
  body := {
    inputs := legacy.body.inputs.map fun input => ⟨input.commit, input.sig, none, none⟩
    outputs := legacy.body.outputs
    kernels := legacy.body.kernels.map fun kernel =>
      ⟨kernel.feature, kernel.feeDarks, kernel.rewardDarks, kernel.lockHeight, kernel.excess,
        kernel.excessSig, none, none⟩
    stealthOffset := none
    kernelOffset := none }

/-- Nothing is lost of a block without binding fields. -/
theorem toCurrent_fromCurrent {block : Block} (plain : block.body.hasAnyBinding = false) :
    (fromCurrent block).toCurrent = block := by
  obtain ⟨header, inputs, outputs, kernels, stealthOffset, kernelOffset⟩ := block
  simp only [BlockBody.hasAnyBinding, Bool.or_eq_false_iff, Option.isSome_eq_false_iff,
    Option.isNone_iff_eq_none, List.any_eq_false, Bool.not_eq_true, Input.hasBinding] at plain
  obtain ⟨⟨⟨rfl, rfl⟩, plainInputs⟩, plainKernels⟩ := plain
  have sameInputs : inputs.map (fun input : Input =>
      (⟨input.commit, input.sig, none, none⟩ : Input)) = inputs := by
    refine (List.map_congr_left fun input member => ?_).trans (List.map_id inputs)
    obtain ⟨key, sig⟩ := plainInputs input member
    cases input
    simp_all
  have sameKernels : kernels.map (fun kernel : TxKernel =>
      (⟨kernel.feature, kernel.feeDarks, kernel.rewardDarks, kernel.lockHeight, kernel.excess,
        kernel.excessSig, none, none⟩ : TxKernel)) = kernels := by
    refine (List.map_congr_left fun kernel member => ?_).trans (List.map_id kernels)
    obtain ⟨excess, sig⟩ := plainKernels kernel member
    cases kernel
    simp_all
  simp only [fromCurrent, toCurrent, List.map_map, Function.comp_def, sameInputs, sameKernels]

end LegacyBlock

/-! ## The files beside the blocks -/

structure ChainMeta where
  network : NetworkId
  genesisHash : Bytes
  blockCount : Nat
  protocolVersion : UInt32
  /-- Which installation produced the validation record below. -/
  validatedBy : Bytes
  /-- Tip hash this node validated in full, and the size of the block file then. -/
  validatedTip : Bytes
  validatedBytes : Nat
  /-- Height of the first body in the block file.  Zero for an archive. -/
  firstHeight : Nat
  pruned : Bool
  /-- Cumulative work of the horizon prefix, in decimal. -/
  horizonWork : Bytes
  validatedHorizonBytes : Nat
  validatedHeadersBytes : Nat
  deriving DecidableEq

structure HorizonUtxo where
  commit : Bytes
  outputPk : Bytes
  height : UInt64
  isCoinbase : Bool
  deriving DecidableEq

structure HorizonFile where
  height : UInt64
  minted : UInt64
  burned : UInt64
  txCount : UInt64
  coinbaseMaturity : UInt64
  kernelSum : Bytes
  kernelCount : UInt64
  utxos : List HorizonUtxo
  deriving DecidableEq

/-- Sidecar written next to an exported chain file. -/
structure SnapshotManifest where
  version : UInt32
  network : NetworkId
  genesis : Bytes
  tip : Bytes
  blocks : Nat
  format : Bytes

/-! ## Serializers -/

/-- A JSON text: it opens with a brace, is one line, is read again as what was written, and
no part of it is a text. -/
structure IsJson {α : Type} (write : α → Bytes) (read : Bytes → Option α) : Prop where
  brace : ∀ value, ∃ rest, write value = 123 :: rest ∧ rest ≠ []
  newline : ∀ value, 10 ∉ write value
  carriageReturn : ∀ value, 13 ∉ write value
  read_write : ∀ value, read (write value) = some value
  torn : ∀ value part, part <+: write value → part ≠ write value → read part = none

/-- The serializers, and what the readers make of their results. -/
structure Serde where
  blockJson : Block → Bytes
  blockOfJson : Bytes → Option Block
  blockJson_isJson : IsJson blockJson blockOfJson
  headerJson : CompactHeader → Bytes
  headerOfJson : Bytes → Option CompactHeader
  headerJson_isJson : IsJson headerJson headerOfJson
  blockBincode : Block → Bytes
  blockOfBincode : Bytes → Option Block
  blockOfBincode_blockBincode : ∀ block, blockOfBincode (blockBincode block) = some block
  legacyBincode : LegacyBlock → Bytes
  legacyOfBincode : Bytes → Option LegacyBlock
  legacyOfBincode_legacyBincode : ∀ legacy, legacyOfBincode (legacyBincode legacy) = some legacy
  /-- The first field of the record is the version of the header. -/
  legacyBincode_version : ∀ legacy, ∃ rest,
    legacyBincode legacy = u32LeBytes legacy.header.version ++ rest
  metaJson : ChainMeta → Bytes
  metaOfJson : Bytes → Option ChainMeta
  metaOfJson_metaJson : ∀ record, metaOfJson (metaJson record) = some record
  horizonJson : HorizonFile → Bytes
  horizonOfJson : Bytes → Option HorizonFile
  horizonOfJson_horizonJson : ∀ horizon, horizonOfJson (horizonJson horizon) = some horizon
  horizonJson_ne_nil : ∀ horizon, horizonJson horizon ≠ []
  snapshotJson : SnapshotManifest → Bytes

/-! ## The chain file -/

inductive Format where
  | json
  | binary
  deriving DecidableEq

/-- A single record may not claim to be larger than this. -/
def maxRecordBytes : Nat := 8 * 1024 * 1024

/-- Prefix of every record written by a build that knows the binding fields. -/
def recordV2Magic : Bytes := [0xFF, 78, 70, 66, 76, 75, 2, 0]

namespace Serde

variable (S : Serde)

def decodeBinaryRecord (record : Bytes) : Option Block :=
  if recordV2Magic <+: record then S.blockOfBincode (record.drop recordV2Magic.length)
  else (S.legacyOfBincode record).map LegacyBlock.toCurrent

/-- The record of a block.  Blocks without binding fields keep the 1.0.x layout. -/
def binaryRecord (block : Block) : Bytes :=
  if block.body.hasAnyBinding then recordV2Magic ++ S.blockBincode block
  else S.legacyBincode (.fromCurrent block)

/-- Write one block.  `none` for one that exceeds the record limit. -/
def writeBlock : Format → Block → Option Bytes
  | .json, block => some (S.blockJson block ++ [10])
  | .binary, block =>
      let record := S.binaryRecord block
      if record.length > maxRecordBytes then none else some (Records.frame record)

/-- Write blocks one after another until one fails.  Returns what was written and whether
all of them were. -/
def writeBlocks (format : Format) : List Block → Bytes × Bool
  | [] => ([], true)
  | block :: rest =>
      match S.writeBlock format block with
      | none => ([], false)
      | some bytes =>
          let (more, done) := writeBlocks format rest
          (bytes ++ more, done)

/-- The first two characters of a JSON text. -/
def opensJson (content : Bytes) : Bool :=
  4 ≤ content.length && content.take 2 = [123, 34]

/-- Read every block of the file, in order. -/
def readBlocks : Format → Bytes → Option (List Block)
  | .json, content => Records.readLines Utf8.isBlank S.blockOfJson content
  | .binary, content =>
      if opensJson content then none
      else Records.readFramed maxRecordBytes S.decodeBinaryRecord content.length content

end Serde

/-! ## Reading back -/

namespace Serde

variable {S : Serde}

theorem isLine_of_isJson {α : Type} {write : α → Bytes} {read : Bytes → Option α}
    (isJson : IsJson write read) (value : α) : Records.IsLine Utf8.isBlank write read value := by
  obtain ⟨rest, shape, -⟩ := isJson.brace value
  refine ⟨isJson.newline value, isJson.carriageReturn value, ?_, ?_, isJson.read_write value,
    isJson.torn value⟩
  · intro part inside nonempty
    cases part with
    | nil => contradiction
    | cons byte tail =>
        rw [shape] at inside
        obtain ⟨rfl, -⟩ := List.cons_prefix_cons.mp inside
        exact Utf8.isBlank_brace tail
  · rw [shape]
    exact List.cons_ne_nil _ _

/-- A 1.0.x record of the current protocol does not begin like a newer one. -/
theorem not_opens_magic {legacy : LegacyBlock}
    (version : legacy.header.version = protocolVersion) :
    ¬recordV2Magic <+: S.legacyBincode legacy := by
  obtain ⟨rest, shape⟩ := S.legacyBincode_version legacy
  rw [shape, version]
  have bytes : u32LeBytes protocolVersion = [8, 0, 0, 0] := by decide
  rw [bytes, recordV2Magic, List.cons_append]
  intro inside
  have first := (List.cons_prefix_cons.mp inside).1
  contradiction

theorem decode_binaryRecord {block : Block} (version : block.header.version = protocolVersion) :
    S.decodeBinaryRecord (S.binaryRecord block) = some block := by
  unfold decodeBinaryRecord binaryRecord
  by_cases bound : block.body.hasAnyBinding
  · rw [if_pos bound, if_pos (List.prefix_append _ _), List.drop_left' rfl]
    exact S.blockOfBincode_blockBincode block
  · rw [if_neg bound, if_neg (not_opens_magic version), S.legacyOfBincode_legacyBincode,
      Option.map_some, LegacyBlock.toCurrent_fromCurrent (Bool.not_eq_true _ ▸ bound)]

theorem length_binaryRecord_pos (block : Block) :
    0 < (S.binaryRecord block).length := by
  unfold binaryRecord
  split
  · simp [recordV2Magic]
  · obtain ⟨rest, shape⟩ := S.legacyBincode_version (.fromCurrent block)
    rw [shape]
    simp

/-- A block of this protocol that the format can hold. -/
structure Storable (S : Serde) (format : Format) (block : Block) : Prop where
  version : block.header.version = protocolVersion
  fits : format = .binary → (S.binaryRecord block).length ≤ maxRecordBytes

/-- The file does not begin like a JSON text by accident of its first length. -/
def Legible (S : Serde) (format : Format) (blocks : List Block) : Prop :=
  format = .binary → ∀ first ∈ blocks.head?,
    (Records.word (S.binaryRecord first).length).take 2 ≠ [123, 34]

/-- A short first record does not begin like a JSON text. -/
theorem legible_of_short {format : Format} {blocks : List Block}
    (short : ∀ block ∈ blocks, (S.binaryRecord block).length < 34 * 256) :
    S.Legible format blocks := by
  intro _ first head same
  have bound := short first (List.mem_of_head? head)
  simp only [Records.word, List.range_succ, List.range_zero, List.nil_append, List.map_cons,
    List.map_nil, List.cons_append, List.take_succ_cons, List.take_zero, List.cons.injEq,
    and_true] at same
  have second := congrArg UInt8.toNat same.2
  have code : (34 : UInt8).toNat = 34 := rfl
  rw [UInt8.toNat_ofNat', Nat.shiftRight_eq_div_pow, code] at second
  norm_num at second
  omega

/-- The content of a file that holds these blocks. -/
def encode (S : Serde) (format : Format) (blocks : List Block) : Bytes :=
  (S.writeBlocks format blocks).1

section Round

variable {format : Format} {blocks more : List Block} {block : Block}

theorem framed_of_storable (storable : S.Storable .binary block) :
    Records.Framed maxRecordBytes S.binaryRecord S.decodeBinaryRecord block :=
  ⟨length_binaryRecord_pos block, storable.fits rfl, decode_binaryRecord storable.version⟩

theorem writeBlock_of_storable (storable : S.Storable format block) :
    ∃ bytes, S.writeBlock format block = some bytes ∧ bytes ≠ [] := by
  cases format with
  | json => exact ⟨_, rfl, by simp⟩
  | binary =>
      refine ⟨_, if_neg (Nat.not_lt.mpr (storable.fits rfl)), ?_⟩
      intro empty
      have := congrArg List.length empty
      simp at this

theorem writeBlocks_append : S.writeBlocks format (blocks ++ more) =
    if (S.writeBlocks format blocks).2 then
      ((S.writeBlocks format blocks).1 ++ (S.writeBlocks format more).1,
        (S.writeBlocks format more).2)
    else S.writeBlocks format blocks := by
  induction blocks with
  | nil => simp [writeBlocks]
  | cons block rest ih =>
      rw [List.cons_append, writeBlocks, writeBlocks]
      cases S.writeBlock format block with
      | none => rfl
      | some bytes =>
          simp only [ih]
          by_cases done : (S.writeBlocks format rest).2
          · simp [done]
          · simp [done]

/-- Storable blocks are all written. -/
theorem writeBlocks_of_storable (storable : ∀ block ∈ blocks, S.Storable format block) :
    (S.writeBlocks format blocks).2 = true := by
  induction blocks with
  | nil => rfl
  | cons block rest ih =>
      obtain ⟨bytes, written, -⟩ := writeBlock_of_storable (storable block List.mem_cons_self)
      rw [writeBlocks, written]
      exact ih fun other member => storable other (List.mem_cons_of_mem _ member)

/-- Conversely, what was written whole is storable. -/
theorem storable_of_writeBlocks (written : (S.writeBlocks format blocks).2 = true)
    (versions : ∀ block ∈ blocks, block.header.version = protocolVersion) :
    ∀ block ∈ blocks, S.Storable format block := by
  induction blocks with
  | nil => exact fun block member => absurd member List.not_mem_nil
  | cons block rest ih =>
      rw [writeBlocks] at written
      cases first : S.writeBlock format block with
      | none =>
          rw [first] at written
          contradiction
      | some bytes =>
          rw [first] at written
          intro other member
          rcases List.mem_cons.mp member with rfl | later
          · refine ⟨versions _ member, ?_⟩
            rintro rfl
            simp only [writeBlock] at first
            by_contra large
            rw [if_pos (Nat.not_le.mp large)] at first
            contradiction
          · exact ih written (fun block inRest => versions block (List.mem_cons_of_mem _ inRest))
              other later

theorem encode_append (storable : ∀ block ∈ blocks, S.Storable format block) :
    S.encode format (blocks ++ more) = S.encode format blocks ++ S.encode format more := by
  rw [encode, writeBlocks_append, if_pos (writeBlocks_of_storable storable)]
  rfl

@[simp] theorem encode_nil : S.encode format [] = [] := rfl

theorem encode_json : S.encode .json blocks =
    blocks.flatMap fun block => S.blockJson block ++ [10] := by
  induction blocks with
  | nil => rfl
  | cons block rest ih =>
      rw [List.flatMap_cons, ← ih]
      rfl

theorem encode_binary (storable : ∀ block ∈ blocks, S.Storable .binary block) :
    S.encode .binary blocks = blocks.flatMap fun block => Records.frame (S.binaryRecord block) := by
  induction blocks with
  | nil => rfl
  | cons block rest ih =>
      have fits := (storable block List.mem_cons_self).fits rfl
      rw [List.flatMap_cons, ← ih fun other member => storable other (List.mem_cons_of_mem _ member),
        encode, writeBlocks, writeBlock, if_neg (Nat.not_lt.mpr fits)]
      rfl

theorem encode_ne_nil (storable : ∀ block ∈ blocks, S.Storable format block)
    (nonempty : blocks ≠ []) : S.encode format blocks ≠ [] := by
  cases blocks with
  | nil => contradiction
  | cons block rest =>
      obtain ⟨bytes, written, some⟩ := writeBlock_of_storable (storable block List.mem_cons_self)
      rw [encode, writeBlocks, written]
      simp [some]

theorem opensJson_encode (storable : ∀ block ∈ blocks, S.Storable .binary block)
    (legible : S.Legible .binary blocks) : opensJson (S.encode .binary blocks) = false := by
  cases blocks with
  | nil => rfl
  | cons block rest =>
      have first := legible rfl block rfl
      rw [encode_binary storable, List.flatMap_cons, Records.frame, List.append_assoc]
      simp only [opensJson, Bool.and_eq_false_iff, decide_eq_false_iff_not]
      right
      rwa [List.take_append_of_le_length (by simp)]

/-- Reading gives back the blocks that were written. -/
theorem readBlocks_encode (storable : ∀ block ∈ blocks, S.Storable format block)
    (legible : S.Legible format blocks) :
    S.readBlocks format (S.encode format blocks) = some blocks := by
  cases format with
  | json =>
      rw [readBlocks, encode_json]
      exact Records.readLines_lines fun block _ => isLine_of_isJson S.blockJson_isJson block
  | binary =>
      rw [readBlocks, opensJson_encode storable legible, if_neg Bool.false_ne_true]
      rw [encode_binary storable]
      exact Records.readFramed_frames (by decide)
        (fun block member => framed_of_storable (storable block member)) le_rfl

/-- Blocks that are not legible are refused as a JSON text. -/
theorem readBlocks_of_not_legible (storable : ∀ block ∈ blocks, S.Storable format block)
    (illegible : ¬S.Legible format blocks) : S.readBlocks format (S.encode format blocks) = none := by
  simp only [Legible, Classical.not_imp, not_forall, not_not] at illegible
  obtain ⟨rfl, first, head, opens⟩ := illegible
  obtain ⟨rest, rfl⟩ := List.head?_eq_some_iff.mp head
  have accident : opensJson (S.encode .binary (first :: rest)) = true := by
    rw [encode_binary storable, List.flatMap_cons, Records.frame, List.append_assoc]
    simp only [opensJson, Bool.and_eq_true, decide_eq_true_eq]
    refine ⟨by simp, ?_⟩
    rw [List.take_append_of_le_length (by simp)]
    exact opens
  rw [readBlocks, accident, if_pos rfl]

/-- A file that was cut off gives a front part of the blocks or nothing. -/
theorem readBlocks_prefix (storable : ∀ block ∈ blocks, S.Storable format block) {part : Bytes}
    (inside : part <+: S.encode format blocks) {found : List Block}
    (read : S.readBlocks format part = some found) : found <+: blocks := by
  cases format with
  | json =>
      rw [encode_json] at inside
      exact Records.readLines_prefix
        (fun block _ => isLine_of_isJson S.blockJson_isJson block) inside read
  | binary =>
      rw [encode_binary storable] at inside
      rw [readBlocks] at read
      split at read
      · contradiction
      · exact Records.readFramed_prefix (by decide)
          (fun block member => framed_of_storable (storable block member)) inside read

/-- The first byte alone cannot be read. -/
theorem readBlocks_first_byte {byte : UInt8} {rest : Bytes}
    (shape : S.encode format blocks = byte :: rest) : S.readBlocks format [byte] = none := by
  cases format with
  | json =>
      rw [encode_json] at shape
      cases blocks with
      | nil => cases shape
      | cons block others =>
          obtain ⟨tail, text, some⟩ := S.blockJson_isJson.brace block
          rw [List.flatMap_cons, text] at shape
          obtain ⟨rfl, -⟩ := List.cons.inj shape
          have inside : [123] <+: S.blockJson block := by
            rw [text]
            exact List.prefix_append [123] tail
          have cut : [123] ≠ S.blockJson block := by
            rw [text]
            intro same
            exact some (List.cons.inj same).2.symm
          rw [readBlocks, Records.readLines_part
            (isLine_of_isJson S.blockJson_isJson block) inside (by simp), if_neg cut]
  | binary => rfl

end Round

end Serde

end Nightfall
