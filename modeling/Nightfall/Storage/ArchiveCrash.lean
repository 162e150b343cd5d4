import Nightfall.Storage.Interrupted

/-!
# Archives and crashes

What the next start finds after a save of an archive was interrupted.  The metadata is
the commit record: a block file with a torn tail is cut back, and one that was replaced
is validated in full.
-/

namespace Nightfall

open Files

variable {P : Primitives}

/-- The clock of a start reads `moment` or later. -/
structure LoadEnv.NotBefore (env : LoadEnv) (moment : UInt64) : Prop where
  recovering : moment ≤ env.recoverNow
  replaying : moment ≤ env.now

theorem Chain.VerifiedBy.stores {S : Serde} {format : Format} {chain : Chain P} {moment : UInt64}
    (verified : chain.VerifiedBy moment) (storable : ∀ block ∈ chain.blocks, S.Storable format block)
    (legible : S.Legible format chain.blocks) :
    chain.withoutUndos.Stores S format chain.blocks where
  restorable := verified.restorable
  storable := storable
  legible := legible
  bodies := fun pruned => absurd verified.archive pruned.ne'

/-- Blocks that lead to the tip and the length of an archive have its headers. -/
theorem Chain.headers_of_reached {known : Set BlockHeader}
    (collisionFree : Set.InjOn (BlockHeader.hash P) known) {chain last : Chain P}
    {moment nowUnix : UInt64} {blocks : List Block} (verified : chain.VerifiedBy moment)
    (reached : Chain.applyAll nowUnix (Chain.newFair P chain.network) blocks = .ok last)
    (fits : blocks.length < 2 ^ 64) (chainKnown : ∀ block ∈ chain.blocks, block.header ∈ known)
    (blocksKnown : ∀ block ∈ blocks, block.header ∈ known) (tip : last.tipHash = chain.tipHash)
    (count : last.blockCount = chain.blockCount) :
    blocks.map Block.header = chain.blocks.map Block.header := by
  obtain ⟨restorable, network, first⟩ := (Chain.restorable_newFair chain.network).applyAll reached
    (by simpa using fits)
  change last.firstHeight = 0 at first
  have describes := restorable.holds.follows.describes
  have own : Linked P chain.network chain.blocks :=
    verified.restorable.holds.follows.describes.linked
  have held := describes.blocks
  rw [first, List.drop_zero, List.nil_append] at held
  have length := restorable.length_blocks
  rw [held, count, verified.blockCount, first, List.length_map, Nat.sub_zero] at length
  have headers (list : List Block) :
      (list.map (Chain.newFair P chain.network).storedForm).map Block.header =
        list.map Block.header := by
    rw [List.map_map]
    exact List.map_congr_left fun block _ => Chain.storedForm_header _ block
  rcases List.eq_nil_or_concat chain.blocks with empty | ⟨_, _, shape⟩
  · rw [empty, List.length_nil] at length
    rw [empty, List.length_eq_zero_iff.mp length]
  · have nonempty : chain.blocks ≠ [] := by simp [shape]
    rw [← headers blocks]
    refine headers_eq_of_tipHash_eq collisionFree ?_ own ?_ chainKnown ?_ nonempty ?_
    · have linked := describes.linked
      rwa [network, List.nil_append] at linked
    · intro block member
      obtain ⟨offered, inside, rfl⟩ := List.mem_map.mp member
      rw [Chain.storedForm_header]
      exact blocksKnown offered inside
    · intro empty
      have none := congrArg List.length empty
      rw [List.length_map, length] at none
      exact nonempty (List.length_eq_zero_iff.mp none)
    · rw [← verified.tipHash_eq, ← tip, describes.tipHash_eq, network, List.nil_append]
      rfl

namespace Datadir

variable {S : Serde} {dir left : Datadir} {id draw content part : Bytes} {env : LoadEnv}
  {before after chain : Chain P} {full : List Block} {moment : UInt64} {known : Set BlockHeader}

/-! ## A directory with another block file -/

/-- The directory is another one with a new block file. -/
structure Holding (S : Serde) (dir : Datadir) (content : Bytes) (left : Datadir) : Prop where
  same : SameBut scratch (dir.withBlocks content) left
  format : left.format = dir.format
  path : left.blocksPath = dir.blocksPath
  held : left left.blocksPath = some content
  record : left.readMeta S = dir.readMeta S
  owner : left.storedId = dir.storedId
  journal : left .recoveryJournal = dir .recoveryJournal

theorem SameBut.holding (same : SameBut scratch (dir.withBlocks content) left) :
    Holding S dir content left where
  same := same
  format := (same.format (by simp [scratch]) (by simp [scratch])).trans format_withBlocks
  path := by
    rw [blocksPath, same.format (by simp [scratch]) (by simp [scratch]), format_withBlocks,
      blocksPath]
  held := by
    rw [same.blocks (by simp [scratch]) (by simp [scratch]), blocksPath_withBlocks,
      withBlocks_blocksPath]
  record := by
    rw [same.readMeta (by simp [scratch]), sameBut_withBlocks.readMeta (by simp)]
  owner := by
    rw [same.storedId (by simp [scratch]), sameBut_withBlocks.storedId (by simp)]
  journal := by
    rw [same _ (by simp [scratch]), sameBut_withBlocks _ (by simp)]

/-- The old block file again. -/
theorem Holding.restore (holding : Holding S dir content left) {old : Bytes}
    (was : dir dir.blocksPath = some old) : SameBut scratch dir (left.withBlocks old) := by
  intro name outside
  by_cases isPath : name = dir.blocksPath
  · rw [isPath, was, withBlocks, holding.path, put_self]
  · rw [withBlocks, holding.path, put_of_ne isPath, holding.same name outside, withBlocks,
      put_of_ne isPath]

theorem committed_withoutUndos :
    Committed S dir id chain.withoutUndos ↔ Committed S dir id chain := by
  constructor
  · rintro ⟨bodies, record, owner, journal, headers, horizon⟩
    exact ⟨bodies, record, owner, journal, headers, horizon⟩
  · rintro ⟨bodies, record, owner, journal, headers, horizon⟩
    exact ⟨bodies, record, owner, journal, headers, horizon⟩

theorem Committed.recordedBytes (committed : Committed S dir id chain) :
    (dir.metaOf id chain).validatedBytes = (S.encode dir.format chain.blocks).length := by
  rw [metaOf, sizeOf, committed.bodies, Option.getD_some]

theorem committed_unless_scratch (committed : Committed S dir id chain)
    (same : SameBut scratch dir left) : Committed S left id chain :=
  committed.of_sameBut same (by simp [scratch])

/-- The repair cuts the file back to the blocks that the record names. -/
theorem recoverUncommittedArchiveTail_of_matches {network : NetworkId} {record : ChainMeta}
    {blocks : List Block} (read : dir.readMeta S = some record)
    (sameNetwork : record.network = network)
    (genesis : record.genesisHash = (genesisHash P network).toHex) (archive : record.pruned = false)
    (first : record.firstHeight = 0) (recorded : record.validatedBytes ≠ 0)
    (tip : record.validatedTip ≠ []) (owner : dir.storedId = some record.validatedBy)
    (held : dir dir.blocksPath = some content) (longer : record.validatedBytes < content.length)
    (decoded : S.readBlocks dir.format (content.take record.validatedBytes) = some blocks)
    (verified : prefixMatches P record env.recoverNow blocks = true) :
    dir.recoverUncommittedArchiveTail P S env network =
      dir.withBlocks (content.take record.validatedBytes) := by
  have long : ¬content.length ≤ record.validatedBytes := Nat.not_le.mpr longer
  unfold recoverUncommittedArchiveTail
  simp only [read, sameNetwork, genesis, archive, first, recorded, tip, storedId_ne_nil owner,
    installId_of_storedId owner, ne_eq, not_true_eq_false, or_self, if_false, Bool.false_eq_true]
  have unchanged : dir.after [] = dir := rfl
  simp only [unchanged, held, if_neg long, decoded, verified, if_true]
  rfl

/-! ## The three outcomes of a crash -/

/-- The blocks of the archive that a directory is committed to are the ones it recorded. -/
theorem prefixMatches_metaOf (verified : chain.VerifiedBy moment) (now : moment ≤ env.recoverNow) :
    prefixMatches P (dir.metaOf id chain) env.recoverNow chain.blocks = true := by
  obtain ⟨last, reached, same⟩ := (verified.mono now).replays
  have supply : last.verifySupply = .ok () :=
    (congrArg Chain.verifySupply same).trans verified.restorable.supply
  have count : last.withoutUndos.blockCount = chain.withoutUndos.blockCount :=
    congrArg Chain.blockCount same
  have tip : last.withoutUndos.tipHash = chain.withoutUndos.tipHash := congrArg Chain.tipHash same
  have network : last.withoutUndos.network = chain.withoutUndos.network :=
    congrArg Chain.network same
  have found : Chain.applyAll env.recoverNow (Chain.newFair P (dir.metaOf id chain).network)
      chain.blocks = .ok last := reached
  rw [prefixMatches, found]
  change (decide (last.verifySupply = .ok ()) &&
    decide (last.withoutUndos.blockCount = chain.withoutUndos.blockCount) &&
    decide (last.withoutUndos.tipHash.toHex = chain.withoutUndos.tipHash.toHex) &&
    decide ((genesisHash P last.withoutUndos.network).toHex =
      (genesisHash P chain.withoutUndos.network).toHex)) = true
  simp [supply, count, tip, network]

/-- A torn tail behind the committed blocks is cut off. -/
theorem Committed.load_torn (committed : Committed S dir id before)
    (verified : before.VerifiedBy moment)
    (storable : ∀ block ∈ before.blocks, S.Storable dir.format block)
    (legible : S.Legible dir.format before.blocks) (nonempty : before.blocks ≠ [])
    (torn : part ≠ [])
    (same : SameBut scratch (dir.withBlocks (S.encode dir.format before.blocks ++ part)) left)
    (clock : env.NotBefore moment) :
    ∃ last repaired, left.loadOrNew P S env before.network = (.ok last, repaired) ∧
      last.withoutUndos = before.withoutUndos ∧ Committed S repaired id before ∧
      repaired.format = dir.format := by
  have holding : Holding S dir _ left := same.holding
  have bytes := committed.recordedBytes
  have front : (S.encode dir.format before.blocks ++ part).take
      (dir.metaOf id before).validatedBytes = S.encode dir.format before.blocks := by
    rw [bytes, List.take_left']
    rfl
  have repair : left.recoverUncommittedArchiveTail P S env before.network =
      left.withBlocks (S.encode dir.format before.blocks) := by
    have positive := List.length_pos_iff.mpr (Serde.encode_ne_nil storable nonempty)
    have cut := @recoverUncommittedArchiveTail_of_matches P S left _ env before.network _
      before.blocks (holding.record.trans committed.record) rfl rfl
      (by simp [metaOf, Chain.isPruned, verified.archive]) verified.archive
      (by rw [bytes]; exact positive.ne') (Bytes32.toHex_ne_nil _)
      (holding.owner.trans committed.owner) holding.held
      (by
        rw [bytes, List.length_append]
        exact Nat.lt_add_of_pos_right (List.length_pos_iff.mpr torn))
      (by
        rw [front, holding.format]
        exact Serde.readBlocks_encode storable legible)
      (prefixMatches_metaOf verified clock.recovering)
    rw [cut, front]
  have repaired : Committed S (left.withBlocks (S.encode dir.format before.blocks)) id before :=
    committed_unless_scratch committed (holding.restore committed.bodies)
  have stores : before.withoutUndos.Stores S
      (left.withBlocks (S.encode dir.format before.blocks)).format before.blocks := by
    rw [format_withBlocks, holding.format]
    exact verified.stores storable legible
  obtain ⟨last, loaded, sameChain⟩ := @Committed.loadArchive P S _ id env before.withoutUndos
    before.blocks (committed_withoutUndos.mpr repaired) stores verified.archive
  have opened := loadOrNew_repaired
    (holding.journal.trans committed.journal) (holding.record.trans committed.record)
    (rfl : (dir.metaOf id before).network = before.network)
    holding.held repair repaired.owner
  exact ⟨last, _, opened.trans (congrArg₂ Prod.mk loaded rfl), sameChain, repaired,
    format_withBlocks.trans holding.format⟩

/-- The record of one archive does not fit the front part of another one. -/
theorem Committed.keeps_rewritten (committed : Committed S dir id before)
    (collisionFree : Set.InjOn (BlockHeader.hash P) known)
    (verifiedBefore : before.VerifiedBy moment) (verifiedAfter : after.VerifiedBy moment)
    (beforeKnown : ∀ block ∈ before.blocks, block.header ∈ known)
    (afterKnown : ∀ block ∈ after.blocks, block.header ∈ known)
    (storable : ∀ block ∈ after.blocks, S.Storable dir.format block)
    (diverged : ¬before.HeadersContinue after)
    (holding : Holding S dir (S.encode dir.format after.blocks) left) :
    left.recoverUncommittedArchiveTail P S env before.network = left := by
  have owner := holding.owner.trans committed.owner
  rcases @recoverUncommittedArchiveTail_cases P S left env before.network with
    settled | ⟨record, found, blocks, truncates, -⟩
  · rcases settled with same | ⟨missing, -⟩
    · exact same
    · rw [owner] at missing
      contradiction
  · exfalso
    have read := truncates.read
    rw [holding.record, committed.record] at read
    obtain rfl := Option.some.inj read
    have held := truncates.held
    rw [holding.held] at held
    obtain rfl := Option.some.inj held
    have decoded := truncates.decoded
    rw [holding.format] at decoded
    have inside : blocks <+: after.blocks :=
      Serde.readBlocks_prefix storable (List.take_prefix _ _) decoded
    have short : blocks.length < 2 ^ 64 := inside.length_le.trans_lt verifiedAfter.fits
    have verified := truncates.verified
    unfold prefixMatches at verified
    cases reached : Chain.applyAll env.recoverNow
        (Chain.newFair P (dir.metaOf id before).network) blocks with
    | error error =>
        rw [reached] at verified
        contradiction
    | ok last =>
        rw [reached] at verified
        simp only [Bool.and_eq_true, decide_eq_true_eq] at verified
        obtain ⟨⟨⟨-, count⟩, tip⟩, -⟩ := verified
        have headers := Chain.headers_of_reached collisionFree verifiedBefore reached short
          beforeKnown (fun block member => afterKnown block (inside.subset member))
          (Bytes32.toHex_injective tip) count
        refine diverged ?_
        rw [Chain.HeadersContinue, ← headers]
        exact inside.map _

/-- A block file that was replaced by one of another length is validated in full. -/
theorem Committed.load_rewritten (committed : Committed S dir id before)
    (verified : after.VerifiedBy moment) (network : after.network = before.network)
    (storable : ∀ block ∈ after.blocks, S.Storable dir.format block)
    (legible : S.Legible dir.format after.blocks) (archive : before.firstHeight = 0)
    (keeps : left.recoverUncommittedArchiveTail P S env before.network = left)
    (holding : Holding S dir (S.encode dir.format after.blocks) left)
    (differs : (S.encode dir.format after.blocks).length ≠
      (S.encode dir.format before.blocks).length)
    (clock : env.NotBefore moment) :
    ∃ last, left.loadOrNew P S env before.network = (.ok last, left) ∧
      last.withoutUndos = after.withoutUndos := by
  have read := holding.record.trans committed.record
  have owner := holding.owner.trans committed.owner
  have untrusted : (left.isOwnFileTrusted S env.draw).1 = false := by
    by_contra trusted
    rw [Bool.not_eq_false, isOwnFileTrusted_eq_true] at trusted
    obtain ⟨record, found, -, -, -, ⟨length, -⟩, -⟩ := trusted
    rw [read] at found
    obtain rfl := Option.some.inj found
    rw [committed.recordedBytes, sizeOf, holding.held, Option.getD_some] at length
    exact differs length.symm
  obtain ⟨last, reached, same⟩ := (verified.mono clock.replaying).replays
  have decoded : S.readBlocks left.format ((left left.blocksPath).getD []) = some after.blocks := by
    rw [holding.format, holding.held, Option.getD_some]
    exact Serde.readBlocks_encode storable legible
  have loaded : left.loadFiles P S env before.network false = .ok last := by
    refine loadFiles_archive read (by simp [metaOf, Chain.isPruned, archive]) archive decoded ?_
      (fun trusts => absurd trusts Bool.false_ne_true)
      ((congrArg Chain.checkTipRoots same).trans verified.restorable.roots)
      ((congrArg Chain.verifySupply same).trans verified.restorable.supply)
    rw [replayStored_untrusted, ← network]
    exact reached
  have opened := loadOrNew_repaired (holding.journal.trans committed.journal) read
    (rfl : (dir.metaOf id before).network = before.network) holding.held keeps owner
  rw [untrusted] at opened
  exact ⟨last, opened.trans (congrArg₂ Prod.mk loaded rfl), same⟩

/-! ## What the next start refuses -/

/-- A block file that is not cut and cannot be read is refused. -/
theorem load_unreadable {record : ChainMeta} {network : NetworkId}
    (journal : left .recoveryJournal = none) (read : left.readMeta S = some record)
    (sameNetwork : record.network = network) (held : left left.blocksPath = some content)
    (short : content.length ≤ record.validatedBytes ∨ record.validatedBytes = 0)
    (owner : left.storedId = some id) (unreadable : S.readBlocks left.format content = none) :
    ∃ error repaired, left.loadOrNew P S env network = (.error error, repaired) := by
  have keeps : left.recoverUncommittedArchiveTail P S env network = left := by
    rcases short with le | zero
    · exact recoverUncommittedArchiveTail_of_le read owner held le
    · unfold recoverUncommittedArchiveTail
      simp [read, zero]
  have opened := @loadOrNew_repaired P S left id env network record content left journal read
    sameNetwork held keeps owner
  cases loaded : left.loadFiles P S env network (left.isOwnFileTrusted S env.draw).1 with
  | error error => exact ⟨error, left, by rw [opened, loaded]⟩
  | ok chain =>
      obtain ⟨-, -, -, stored, found, -⟩ := loadFiles_eq_ok.mp loaded
      rw [held, Option.getD_some, unreadable] at found
      contradiction

/-- A directory whose blocks are not legible is refused, though the save was completed. -/
theorem Committed.load_illegible (committed : Committed S dir id chain)
    (storable : ∀ block ∈ chain.blocks, S.Storable dir.format block)
    (illegible : ¬S.Legible dir.format chain.blocks) :
    ∃ error repaired, dir.loadOrNew P S env chain.network = (.error error, repaired) :=
  load_unreadable committed.journal committed.record rfl committed.bodies
    (.inl committed.recordedBytes.ge) committed.owner
    (Serde.readBlocks_of_not_legible storable illegible)

/-- A first append that is torn behind its first byte is refused. -/
theorem Committed.load_torn_first (committed : Committed S dir id before)
    (empty : before.blocks = []) {byte : UInt8} {rest : Bytes} {format : Format}
    {blocks : List Block} (sameFormat : dir.format = format)
    (shape : S.encode format blocks = byte :: rest)
    (holding : Holding S dir [byte] left) :
    ∃ error repaired, left.loadOrNew P S env before.network = (.error error, repaired) := by
  refine load_unreadable (holding.journal.trans committed.journal)
    (holding.record.trans committed.record) rfl holding.held (.inr ?_)
    (holding.owner.trans committed.owner) ?_
  · rw [committed.recordedBytes, empty]
    rfl
  · rw [holding.format, sameFormat]
    exact Serde.readBlocks_first_byte shape

/-- A block file that was replaced by another one of the recorded length is trusted, and
then refused for its tip. -/
theorem Committed.load_rewritten_same_length (committed : Committed S dir id before)
    (archive : before.firstHeight = 0) (verified : after.VerifiedBy moment)
    (network : after.network = before.network)
    (storable : ∀ block ∈ after.blocks, S.Storable dir.format block)
    (holding : Holding S dir (S.encode dir.format after.blocks) left)
    (same : (S.encode dir.format after.blocks).length =
      (S.encode dir.format before.blocks).length)
    (nonempty : after.blocks ≠ []) (tip : after.tipHash ≠ before.tipHash) :
    ∃ error repaired, left.loadOrNew P S env before.network = (.error error, repaired) := by
  have read := holding.record.trans committed.record
  have owner := holding.owner.trans committed.owner
  by_cases legible : S.Legible dir.format after.blocks
  · have keeps := @recoverUncommittedArchiveTail_of_le P S left id env before.network _ _ read owner
      holding.held (by rw [committed.recordedBytes, same])
    have length : left.HasRecordedLength (dir.metaOf id before) := by
      refine ⟨?_, ?_⟩
      · rw [committed.recordedBytes, sizeOf, holding.held, Option.getD_some, same]
      · rw [sizeOf, holding.held, Option.getD_some]
        exact (List.length_pos_iff.mpr (Serde.encode_ne_nil storable nonempty)).ne'
    have trusted : (left.isOwnFileTrusted S env.draw).1 = true :=
      isOwnFileTrusted_eq_true.mpr ⟨_, read, Bytes32.toHex_ne_nil _, storedId_ne_nil owner,
        (by rw [installId_of_storedId owner]; rfl), length,
        .inl ⟨by simp [metaOf, Chain.isPruned, archive], archive⟩⟩
    have opened : left.loadOrNew P S env before.network =
        (left.loadFiles P S env before.network (left.isOwnFileTrusted S env.draw).1, left) :=
      loadOrNew_repaired (holding.journal.trans committed.journal) read rfl holding.held keeps owner
    cases loaded : left.loadFiles P S env before.network (left.isOwnFileTrusted S env.draw).1 with
    | error error => exact ⟨error, left, by rw [opened, loaded]⟩
    | ok chain =>
        exfalso
        rw [loadFiles_eq_ok, trusted, read] at loaded
        obtain ⟨-, start, started, stored, found, replayed, checked, -⟩ := loaded
        rw [holding.format, holding.held, Option.getD_some,
          Serde.readBlocks_encode storable legible] at found
        obtain rfl := Option.some.inj found
        have plain : start = Chain.newFair P before.network := by
          rw [startOf, if_neg (by simp [recordsPruned, metaOf, Chain.isPruned, archive])] at started
          exact (Except.ok.inj started).symm
        obtain ⟨last, again, sameChain⟩ :=
          verified.restorable.replayArchive verified.archive env.now
        change replayStored true env.now (Chain.newFair P after.network) after.blocks = .ok last
          at again
        rw [plain, ← network, again] at replayed
        obtain rfl := Except.ok.inj replayed
        have recorded := (checkRecord_eq_ok.mp (checked rfl)).1
        have tips : last.withoutUndos.tipHash = after.withoutUndos.tipHash :=
          congrArg Chain.tipHash sameChain
        exact tip (tips.symm.trans (Bytes32.toHex_injective recorded.symm))
  · exact load_unreadable (holding.journal.trans committed.journal) read rfl holding.held
      (.inl (by rw [committed.recordedBytes, same])) owner
      (by rw [holding.format]; exact Serde.readBlocks_of_not_legible storable legible)

end Datadir

end Nightfall
