import Nightfall.Sample
import Nightfall.Storage.Layout
import Nightfall.Storage.Trust

/-!
# Concrete directories

The sample blocks under the derived serializers, and the texts that the sample
installation writes.
-/

namespace Nightfall

namespace Sample

/-- The serializers of the sample directories. -/
noncomputable abbrev serde : Serde := Serde.derived

/-- The id of the installation. -/
def installation : Bytes := Hex.encode (List.replicate 16 7)

/-- What the generator makes for a directory without an id. -/
def drawn : Bytes := Hex.encode (List.replicate 16 9)

theorem installation_isDraw : Datadir.IsDraw installation :=
  ⟨List.replicate 16 7, by simp, rfl⟩

theorem drawn_isDraw : Datadir.IsDraw drawn :=
  ⟨List.replicate 16 9, by simp, rfl⟩

/-- The id of another installation. -/
def visitor : Bytes := Hex.encode (List.replicate 16 8)

/-- The sample blocks have this version, and their records are small. -/
theorem blocks_small : ∀ block ∈ [block0, block1, altered1, block2, block3],
    block.header.version = protocolVersion ∧
      (LegacyBlock.bincode (.fromCurrent block)).length ≤ 2000 ∧
      block.body.hasAnyBinding = false := by
  decide +kernel

theorem length_binaryRecord_le {block : Block}
    (member : block ∈ [block0, block1, altered1, block2, block3]) :
    (serde.binaryRecord block).length ≤ 2000 := by
  obtain ⟨-, short, plain⟩ := blocks_small block member
  rw [Serde.binaryRecord, if_neg (by simp [plain])]
  exact short

theorem storable {block : Block} (format : Format)
    (member : block ∈ [block0, block1, altered1, block2, block3]) :
    serde.Storable format block :=
  ⟨(blocks_small block member).1, fun _ => (length_binaryRecord_le member).trans (by decide)⟩

theorem legible (format : Format) {blocks : List Block}
    (inside : blocks ⊆ [block0, block1, altered1, block2, block3]) :
    serde.Legible format blocks :=
  Serde.legible_of_short fun _ member =>
    (length_binaryRecord_le (inside member)).trans_lt (by decide)

theorem blocks_short : ∀ block ∈ [block0, block1, altered1, block2, block3],
    (Json.render (.object block.fields)).length ≤ 20000 := by
  decide +kernel

/-- Sample files are short. -/
theorem length_encode_json_le {blocks : List Block}
    (inside : blocks ⊆ [block0, block1, altered1, block2, block3]) :
    (serde.encode .json blocks).length ≤ 20001 * blocks.length := by
  induction blocks with
  | nil => exact le_rfl
  | cons block rest ih =>
      have here := blocks_short block (inside List.mem_cons_self)
      have others := ih fun other member => inside (List.mem_cons_of_mem _ member)
      have text : serde.blockJson block = Json.render (.object block.fields) := rfl
      rw [Serde.encode_json] at others ⊢
      rw [List.flatMap_cons, List.length_append, List.length_append, List.length_singleton,
        List.length_cons, text]
      omega

end Sample

end Nightfall
