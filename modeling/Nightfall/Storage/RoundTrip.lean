import Nightfall.Storage.Sample

/-!
# The chain file codec

What is written is read back, and a binary file that was cut inside a record is refused.
The one exception are files whose first length prefix looks like the beginning of a JSON
text.
-/

namespace Nightfall

variable {S : Serde} {format : Format} {blocks : List Block}

namespace Serde

/-- A binary file that does not end behind a record is refused. -/
theorem readBlocks_cut (storable : ∀ block ∈ blocks, S.Storable .binary block) {part : Bytes}
    (inside : part <+: S.encode .binary blocks)
    (cut : ∀ count, part ≠ S.encode .binary (blocks.take count)) :
    S.readBlocks .binary part = none := by
  rw [encode_binary storable] at inside
  cases read : S.readBlocks .binary part with
  | none => rfl
  | some found =>
      exfalso
      rw [readBlocks] at read
      split at read
      · contradiction
      · obtain ⟨front, whole⟩ := Records.readFramed_front (by decide)
          (fun block member => framed_of_storable (storable block member)) inside read
        have taken := List.prefix_iff_eq_take.mp front
        refine cut found.length ?_
        rw [← taken, whole, encode_binary]
        exact fun block member => storable block (front.subset member)

/-- Blocks that the format can hold are read back exactly, and no torn binary file is read,
if and only if the first record does not have a length whose bytes begin a JSON text. -/
theorem codec_exact_iff (storable : ∀ block ∈ blocks, S.Storable format block) :
    (S.readBlocks format (S.encode format blocks) = some blocks ∧
      (format = .binary → ∀ part, part <+: S.encode .binary blocks →
        (∀ count, part ≠ S.encode .binary (blocks.take count)) →
          S.readBlocks .binary part = none)) ↔ S.Legible format blocks := by
  constructor
  · rintro ⟨read, -⟩
    by_contra illegible
    rw [readBlocks_of_not_legible storable illegible] at read
    contradiction
  · intro legible
    refine ⟨readBlocks_encode storable legible, ?_⟩
    rintro rfl part inside cut
    exact readBlocks_cut storable inside cut

end Serde

section Sample

open Sample

/-- A block whose body carries an offset and no other binding field. -/
def offsetBlock : Block :=
  { block1 with body := { block1.body with stealthOffset := some 0 } }

theorem offsetBlock_small : offsetBlock.header.version = protocolVersion ∧
    offsetBlock.body.hasAnyBinding = true ∧ (Block.bincode offsetBlock).length ≤ 2000 := by
  decide +kernel

theorem offsetBlock_storable (format : Format) : serde.Storable format offsetBlock := by
  have code : serde.blockBincode = Block.bincode := rfl
  have magic : recordV2Magic.length + 2000 ≤ maxRecordBytes := by decide
  refine ⟨offsetBlock_small.1, fun _ => ?_⟩
  rw [Serde.binaryRecord, if_pos offsetBlock_small.2.1, List.length_append, code]
  exact (Nat.add_le_add_left offsetBlock_small.2.2 _).trans magic

/-- A plain block, one with binding fields and a plain one again. -/
theorem codec_exact_mixed :
    serde.readBlocks .binary (serde.encode .binary [block0, offsetBlock, block1]) =
        some [block0, offsetBlock, block1] ∧
      (Format.binary = .binary →
        ∀ part, part <+: serde.encode .binary [block0, offsetBlock, block1] →
          (∀ count, part ≠ serde.encode .binary ([block0, offsetBlock, block1].take count)) →
            serde.readBlocks .binary part = none) := by
  have storables : ∀ block ∈ [block0, offsetBlock, block1], serde.Storable .binary block := by
    intro block member
    simp only [List.mem_cons, List.not_mem_nil, or_false] at member
    rcases member with rfl | rfl | rfl
    · exact storable .binary (by simp)
    · exact offsetBlock_storable .binary
    · exact storable .binary (by simp)
  refine (Serde.codec_exact_iff storables).mpr fun binary first head => ?_
  obtain rfl := Option.some.inj head
  have inside : [block0] ⊆ [block0, block1, altered1, block2, block3] := by simp
  exact legible .binary inside binary block0 rfl

/-- A block with one output whose payload fills the record. -/
def paddedBlock (padding : Nat) : Block where
  header := block0.header
  body := {
    inputs := []
    outputs := [{ outputOf .plain zeroValued with payload := List.replicate padding 0 }]
    kernels := []
    stealthOffset := none
    kernelOffset := none }

theorem length_paddedBlock :
    (LegacyBlock.bincode (.fromCurrent (paddedBlock 8450))).length = 0x227B := by
  decide +kernel

theorem paddedBlock_plain : (paddedBlock 8450).header.version = protocolVersion ∧
    (paddedBlock 8450).body.hasAnyBinding = false := by
  decide +kernel

theorem length_binaryRecord_paddedBlock :
    (serde.binaryRecord (paddedBlock 8450)).length = 0x227B := by
  have code : serde.legacyBincode = LegacyBlock.bincode := rfl
  rw [Serde.binaryRecord, if_neg (by simp [paddedBlock_plain.2]), code]
  exact length_paddedBlock

/-- A first record of 8827 bytes is taken for a JSON text. -/
theorem first_record_refused :
    (∀ block ∈ [paddedBlock 8450], serde.Storable .binary block) ∧
      serde.readBlocks .binary (serde.encode .binary [paddedBlock 8450]) ≠
        some [paddedBlock 8450] := by
  have storable : ∀ block ∈ [paddedBlock 8450], serde.Storable .binary block := by
    intro block member
    obtain rfl := List.mem_singleton.mp member
    refine ⟨paddedBlock_plain.1, fun _ => ?_⟩
    rw [length_binaryRecord_paddedBlock]
    decide
  have illegible : ¬serde.Legible .binary [paddedBlock 8450] := by
    intro legible
    refine legible rfl (paddedBlock 8450) rfl ?_
    rw [length_binaryRecord_paddedBlock]
    decide
  rw [Serde.readBlocks_of_not_legible storable illegible]
  exact ⟨storable, nofun⟩

end Sample

end Nightfall
