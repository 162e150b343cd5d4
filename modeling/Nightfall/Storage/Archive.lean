import Nightfall.Consensus.Records
import Nightfall.Storage.Saving

/-!
# Archives that were validated in full

The blocks of such an archive give it back when they are applied to genesis, at the
moment of the validation or later.  A save rewrites the block file exactly when the
headers of the archive do not continue the stored ones.
-/

namespace Nightfall

open Files

variable {P : Primitives}

/-- Applying the blocks of the chain to genesis gives the chain, at `moment` or later. -/
structure Chain.VerifiedBy (moment : UInt64) (chain : Chain P) : Prop where
  replays : ∃ last, Chain.applyAll moment (Chain.newFair P chain.network) chain.blocks = .ok last ∧
    last.withoutUndos = chain.withoutUndos
  fits : chain.blocks.length < 2 ^ 64

section Restorable

variable {chain : Chain P} {full : List Block} {moment : UInt64}

/-- The undo window does not matter to a restore. -/
theorem Chain.Restorable.withoutUndos (restorable : chain.Restorable full) :
    chain.withoutUndos.Restorable full where
  holds := {
    follows := {
      describes := {
        headers := restorable.holds.follows.describes.headers
        blocks := restorable.holds.follows.describes.blocks
        skip_le := restorable.holds.follows.describes.skip_le
        first_le := restorable.holds.follows.describes.first_le
        linked := restorable.holds.follows.describes.linked
        work := restorable.holds.follows.describes.work
        fits := restorable.holds.follows.describes.fits
        undos_le := Nat.zero_le _
        undoWorks := List.nil_suffix }
      replays := restorable.holds.follows.replays
      live := restorable.holds.follows.live
      tracks := restorable.holds.follows.tracks
      covers := UndoLog.covers_nil _ _ }
    archive := restorable.holds.archive
    horizon := restorable.holds.horizon }
  base := ⟨restorable.base.archive, restorable.base.pruned⟩
  roots := restorable.roots
  supply := restorable.supply

theorem Chain.VerifiedBy.archive (verified : chain.VerifiedBy moment) :
    chain.firstHeight = 0 := by
  obtain ⟨last, reached, same⟩ := verified.replays
  have first := ((Chain.restorable_newFair chain.network).applyAll reached
    (by simpa using verified.fits)).2.2
  exact (congrArg Chain.firstHeight same).symm.trans first

/-- The history of a validated archive is its own blocks. -/
theorem Chain.VerifiedBy.restorable (verified : chain.VerifiedBy moment) :
    chain.withoutUndos.Restorable chain.blocks := by
  obtain ⟨last, reached, same⟩ := verified.replays
  obtain ⟨restorable, -, first⟩ := (Chain.restorable_newFair chain.network).applyAll reached
    (by simpa using verified.fits)
  have held := restorable.holds.follows.describes.blocks
  rw [first] at held
  have blocks : last.withoutUndos.blocks = chain.withoutUndos.blocks :=
    congrArg Chain.blocks same
  have whole : [] ++ chain.blocks.map (Chain.newFair P chain.network).storedForm =
      chain.blocks := held.symm.trans blocks
  rw [whole] at restorable
  rw [← same]
  exact restorable.withoutUndos

theorem Chain.VerifiedBy.mono {later : UInt64} (verified : chain.VerifiedBy moment)
    (after : moment ≤ later) : chain.VerifiedBy later := by
  obtain ⟨last, reached, same⟩ := verified.replays
  exact ⟨⟨last, Chain.applyAll_later reached after, same⟩, verified.fits⟩

theorem Chain.VerifiedBy.versions (verified : chain.VerifiedBy moment) :
    ∀ block ∈ chain.blocks, block.header.version = protocolVersion := by
  have linked : Linked P chain.network chain.blocks :=
    verified.restorable.holds.follows.describes.linked
  exact linked.forall_mem fun _ _ links => links.version

theorem Chain.VerifiedBy.blockCount (verified : chain.VerifiedBy moment) :
    chain.blockCount = chain.blocks.length := by
  have length := verified.restorable.length_blocks
  change chain.blocks.length = chain.blockCount - chain.firstHeight at length
  rw [length, verified.archive, Nat.sub_zero]

theorem Chain.VerifiedBy.of_reached {network : NetworkId} {last : Chain P} {blocks : List Block}
    (reached : Chain.applyAll moment (Chain.newFair P network) blocks = .ok last)
    (held : last.blocks = blocks) (fits : blocks.length < 2 ^ 64) : last.VerifiedBy moment := by
  have sameNetwork : last.network = network :=
    ((Chain.restorable_newFair network).applyAll reached (by simpa using fits)).2.1
  exact ⟨⟨last, by rw [sameNetwork, held]; exact reached, rfl⟩, by rw [held]; exact fits⟩

theorem Chain.applyAll_concat {start : Chain P} {blocks : List Block} {block : Block}
    (reached : Chain.applyAll moment start blocks = .ok chain)
    (accepted : (chain.applyBlock block moment).1 = .ok ()) :
    Chain.applyAll moment start (blocks ++ [block]) = .ok (chain.applyBlock block moment).2 := by
  induction blocks generalizing start with
  | nil =>
      obtain rfl := Except.ok.inj reached
      simp only [List.nil_append, Chain.applyAll, Guard.bind_eq_ok, Guard.toExcept_eq_ok]
      exact ⟨_, Prod.ext accepted rfl, rfl⟩
  | cons first rest ih =>
      simp only [List.cons_append, Chain.applyAll, Guard.bind_eq_ok, Guard.toExcept_eq_ok]
        at reached ⊢
      obtain ⟨next, applied, others⟩ := reached
      exact ⟨next, applied, ih others⟩

end Restorable

section Hashes

variable {chain : Chain P} {full : List Block}

/-- The headers of one archive continue those of the other. -/
def Chain.HeadersContinue (before after : Chain P) : Prop :=
  before.blocks.map Block.header <+: after.blocks.map Block.header

theorem tipHashOf_congr {network : NetworkId} {left right : List Block}
    (headers : left.map Block.header = right.map Block.header) :
    tipHashOf P network left = tipHashOf P network right := by
  have hashes (blocks : List Block) : blocks.getLast?.map (Block.hash P) =
      (blocks.map Block.header).getLast?.map (BlockHeader.hash P) := by
    rw [List.getLast?_map, Option.map_map]
    rfl
  rw [tipHashOf, tipHashOf, hashes, hashes, headers]

theorem Chain.VerifiedBy.tipHash_eq {moment : UInt64} (verified : chain.VerifiedBy moment) :
    chain.tipHash = tipHashOf P chain.network chain.blocks :=
  verified.restorable.holds.follows.describes.tipHash_eq

theorem Chain.VerifiedBy.hashAt_eq {moment : UInt64} (verified : chain.VerifiedBy moment)
    (height : Nat) : chain.hashAt height = chain.blocks[height]?.map (Block.hash P) :=
  @Describes.hashAt_eq P chain.withoutUndos _ verified.restorable.holds.follows.describes height

section Continue

variable {before after : Chain P} {moment later : UInt64} {known : Set BlockHeader}

/-- The hash at the height of the old tip tells whether the headers continue. -/
theorem Chain.headersContinue_iff (collisionFree : Set.InjOn (BlockHeader.hash P) known)
    (verifiedBefore : before.VerifiedBy moment) (verifiedAfter : after.VerifiedBy later)
    (network : after.network = before.network)
    (beforeKnown : ∀ block ∈ before.blocks, block.header ∈ known)
    (afterKnown : ∀ block ∈ after.blocks, block.header ∈ known)
    (nonempty : before.blocks ≠ []) :
    before.HeadersContinue after ↔
      after.hashAt (before.blocks.length - 1) = some before.tipHash := by
  have positive : 0 < before.blocks.length := List.length_pos_iff.mpr nonempty
  have linked : Linked P before.network before.blocks :=
    verifiedBefore.restorable.holds.follows.describes.linked
  have linkedAfter : Linked P before.network after.blocks := by
    rw [← network]
    exact verifiedAfter.restorable.holds.follows.describes.linked
  rw [verifiedAfter.hashAt_eq, verifiedBefore.tipHash_eq]
  constructor
  · intro continued
    obtain ⟨tip, found⟩ : ∃ tip, before.blocks.getLast? = some tip :=
      ⟨_, List.getLast?_eq_some_getLast nonempty⟩
    have here : before.blocks[before.blocks.length - 1]? = some tip := by
      rw [← List.getLast?_eq_getElem?, found]
    have header : (before.blocks.map Block.header)[before.blocks.length - 1]? =
        some tip.header := by
      rw [List.getElem?_map, here, Option.map_some]
    have there := (List.prefix_iff_getElem?.mp continued) (before.blocks.length - 1)
      (by rw [List.length_map]; omega)
    rw [← List.getElem?_eq_getElem, header, List.getElem?_map] at there
    obtain ⟨other, otherFound, otherHeader⟩ := Option.map_eq_some_iff.mp there
    rw [otherFound, tipHashOf, found]
    simp only [Option.map_some, Option.getD_some, Block.hash, otherHeader]
  · intro same
    obtain ⟨tip, found, hash⟩ := Option.map_eq_some_iff.mp same
    have inside := (List.getElem?_eq_some_iff.mp found).1
    have split : after.blocks.take before.blocks.length =
        after.blocks.take (before.blocks.length - 1) ++ [tip] := by
      have grown := @List.take_add_one _ after.blocks (before.blocks.length - 1)
      rwa [Nat.sub_add_cancel positive, found] at grown
    have headers := headers_eq_of_tipHash_eq collisionFree (linkedAfter.take before.blocks.length) linked
      (fun block member => afterKnown block (List.mem_of_mem_take member)) beforeKnown
      (by rw [split]; simp) nonempty (by rw [split, tipHashOf_concat, hash])
    rw [HeadersContinue, ← headers, List.map_take]
    exact List.take_prefix _ _

namespace Datadir

variable {S : Serde} {dir : Datadir} {id : Bytes}

theorem Committed.storedBlockCount_eq (committed : Committed S dir id before) :
    dir.storedBlockCount S = before.blockCount := by
  rw [storedBlockCount, committed.record]
  rfl

theorem Committed.storedTip_eq (committed : Committed S dir id before) :
    dir.storedTip S = some before.tipHash.toHex := by
  rw [storedTip, committed.record]
  exact Option.filter_some_pos (by simp [metaOf, Bytes32.toHex_ne_nil])

/-- A save behind a completed one keeps the block file when the headers continue. -/
theorem Committed.savesAnew_eq_false (committed : Committed S dir id before)
    (collisionFree : Set.InjOn (BlockHeader.hash P) known)
    (verifiedBefore : before.VerifiedBy moment) (verifiedAfter : after.VerifiedBy later)
    (network : after.network = before.network)
    (beforeKnown : ∀ block ∈ before.blocks, block.header ∈ known)
    (afterKnown : ∀ block ∈ after.blocks, block.header ∈ known) :
    dir.savesAnew S after = false ↔ before.HeadersContinue after := by
  have held : (dir dir.blocksPath).isNone = false := by rw [committed.bodies]; rfl
  have shorter (continued : before.HeadersContinue after) :
      before.blocks.length ≤ after.blocks.length := by
    simpa using continued.length_le
  unfold savesAnew
  rw [held, committed.storedBlockCount_eq, committed.storedTip_eq, verifiedBefore.blockCount,
    verifiedAfter.blockCount]
  simp only [Bool.or_false, Bool.or_eq_false_iff, decide_eq_false_iff_not, not_lt,
    Bool.and_eq_false_iff, Nat.le_zero, Bool.not_eq_false']
  rcases List.eq_nil_or_concat before.blocks with empty | ⟨_, _, shape⟩
  · simp [Chain.HeadersContinue, empty]
  · have nonempty : before.blocks ≠ [] := by simp [shape]
    rw [Chain.headersContinue_iff collisionFree verifiedBefore verifiedAfter network beforeKnown
      afterKnown nonempty] at *
    have matches' : ancestorMatches after before.blocks.length (some before.tipHash.toHex) = true ↔
        after.hashAt (before.blocks.length - 1) = some before.tipHash := by
      unfold ancestorMatches
      cases found : after.hashAt (before.blocks.length - 1) with
      | none => simp
      | some hash => simp [Bytes32.toHex_injective.eq_iff]
    rw [matches']
    constructor
    · rintro ⟨-, same⟩
      exact same.resolve_left (by simpa using nonempty)
    · exact fun same => ⟨shorter same, .inr same⟩

end Datadir

end Continue

end Hashes

end Nightfall
