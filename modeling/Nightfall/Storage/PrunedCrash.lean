import Nightfall.Storage.Base
import Nightfall.Storage.ArchiveCrash

/-!
# Pruned chains and crashes

A pruned save replaces the headers, the horizon and the bodies before the metadata, and the
old metadata vouch for none of them.  What a start accepts of files without new metadata.
-/

namespace Nightfall

open Files

variable {P : Primitives}

/-! ## What a replay of stored blocks checks -/

namespace Datadir

variable {trusted : Bool} {nowUnix : UInt64} {chain last : Chain P} {blocks : List Block}
  {block : Block}

/-- The first replayed block has the next height. -/
theorem height_of_replayStored (tracked : chain.Tracked)
    (replayed : replayStored trusted nowUnix chain (block :: blocks) = .ok last) :
    block.header.height = chain.nextHeight := by
  simp only [replayStored, Guard.bind_eq_ok, Guard.toExcept_eq_ok] at replayed
  obtain ⟨next, accepted, _⟩ := replayed
  cases trusted with
  | true =>
      rw [if_pos rfl, Chain.applyBlockFromOwnDisk_eq, Chain.settle_eq_ok] at accepted
      obtain ⟨ledger, undo, judged, _⟩ := accepted
      have linkage := Chain.checkLinkage_eq_ok.mp (Chain.ownDiskVerdict_eq_ok.mp judged).linked
      rw [← Chain.storedForm_header chain block]
      exact linkage.2.1
  | false =>
      rw [if_neg Bool.false_ne_true, Chain.applyBlock_eq tracked.ledger, Chain.settle_eq_ok]
        at accepted
      obtain ⟨ledger, undo, judged, _⟩ := accepted
      have checked := Chain.checkBlock_eq_ok.mp (Chain.verdict_eq_ok.mp judged).checked
      rw [← Chain.storedForm_header chain block]
      exact checked.2.2.2.1

/-- A trusted replay adds the headers of the replayed blocks. -/
theorem headers_of_replayStored
    (replayed : replayStored true nowUnix chain blocks = .ok last) :
    last.headers = chain.headers ++ blocks.map (CompactHeader.fromBlock P) := by
  induction blocks generalizing chain with
  | nil =>
      obtain rfl := Except.ok.inj replayed
      simp
  | cons block rest ih =>
      simp only [replayStored, if_true, Guard.bind_eq_ok, Guard.toExcept_eq_ok] at replayed
      obtain ⟨next, accepted, later⟩ := replayed
      rw [Chain.applyBlockFromOwnDisk_eq, Chain.settle_eq_ok] at accepted
      obtain ⟨ledger, undo, _, rfl⟩ := accepted
      have sameHeader : CompactHeader.fromBlock P (chain.storedForm block) =
          CompactHeader.fromBlock P block := by
        simp only [CompactHeader.fromBlock, Chain.storedForm_header, Block.hash]
      rw [ih later, Chain.extend_headers, sameHeader, List.append_assoc]
      rfl

/-! ## An unpublished save -/

variable {S : Serde} {dir left repaired : Datadir} {id content : Bytes} {env : LoadEnv}
  {old loaded : Chain P} {stored : List Block}

/-- The files of a save whose metadata were not published: the record is still the one of
the old chain. -/
structure Unpublished (S : Serde) (dir : Datadir) (id : Bytes) (old : Chain P) (left : Datadir)
    (stored : List Block) : Prop where
  held : left left.blocksPath = some (S.encode left.format stored)
  storable : ∀ block ∈ stored, S.Storable left.format block
  record : left.readMeta S = some (dir.metaOf id old)
  owner : left.storedId = some id
  journal : left .recoveryJournal = none

/-- The blocks that a load reads are the stored ones. -/
theorem Unpublished.read (unpublished : Unpublished S dir id old left stored)
    {found : List Block}
    (read : S.readBlocks left.format ((left left.blocksPath).getD []) = some found) :
    found = stored := by
  rw [unpublished.held, Option.getD_some] at read
  by_cases legible : S.Legible left.format stored
  · rw [Serde.readBlocks_encode unpublished.storable legible] at read
    exact (Option.some.inj read).symm
  · rw [Serde.readBlocks_of_not_legible unpublished.storable legible] at read
    cases read

/-- If the old chain is pruned, a load accepts only files with its tip and its length. -/
theorem Unpublished.pruned (unpublished : Unpublished S dir id old left stored)
    (pruned : 0 < old.firstHeight) (nonempty : stored ≠ []) (counted : 0 < old.blockCount)
    (opened : left.loadOrNew P S env old.network = (.ok loaded, repaired)) :
    stored.getLast?.map (Block.hash P) = some old.tipHash ∧
      old.firstHeight + stored.length = old.blockCount := by
  have isPruned : (dir.metaOf id old).pruned = true := by simp [metaOf, Chain.isPruned, pruned]
  have keeps : left.recoverUncommittedArchiveTail P S env old.network = left := by
    unfold recoverUncommittedArchiveTail
    simp [unpublished.record, isPruned]
  have sameNetwork : (dir.metaOf id old).network = old.network := rfl
  rw [loadOrNew_repaired unpublished.journal unpublished.record sameNetwork unpublished.held keeps
    unpublished.owner] at opened
  obtain ⟨loads, rfl⟩ := Prod.mk.inj opened
  have records : recordsPruned (left.readMeta S) = true := by
    rw [unpublished.record]
    simp [recordsPruned, isPruned]
  obtain ⟨trusted, start, started, found, read, replayed, checked, _, count⟩ :=
    loadFiles_eq_ok.mp loads
  obtain rfl := unpublished.read read
  rw [trusted records] at replayed checked
  have tip := checked rfl
  rw [unpublished.record, checkRecord_eq_ok] at tip
  have sameTip : old.tipHash = loaded.tipHash := Bytes32.toHex_injective tip.1
  have headers := headers_of_replayStored replayed
  have startLength : start.headers.length = old.firstHeight := by
    rw [unpublished.record, startOf, if_pos (unpublished.record ▸ records)] at started
    simp only [prunedStart, Guard.bind_eq_ok, Guard.need_eq_ok, Guard.refuse_eq_ok,
      Except.ok.injEq, not_not] at started
    obtain ⟨_, _, _, _, _, long, rfl⟩ := started
    exact long
  have notEmpty : loaded.headers ≠ [] := by
    rw [headers]
    simp [nonempty]
  constructor
  · obtain ⟨front, final, shape⟩ := (List.eq_nil_or_concat found).resolve_left nonempty
    have last : loaded.tipHash = final.hash P := by
      rw [Chain.tipHash, headers, shape]
      simp [CompactHeader.fromBlock]
    rw [shape, sameTip, last]
    simp
  · have total := count records
    rw [unpublished.record] at total
    have total : loaded.blockCount = old.blockCount := total counted
    rw [← total, Chain.blockCount, if_pos notEmpty, headers, List.length_append, startLength,
      List.length_map]

/-- If the old chain is an archive, a load accepts no file whose first block is a later
one. -/
theorem Unpublished.archive (unpublished : Unpublished S dir id old left stored)
    (committed : Committed S dir id old) (verifies : old.blockCount = 0 → old.blocks = [])
    (archive : old.firstHeight = 0) {first : Block} {rest : List Block}
    (shape : stored = first :: rest) (above : first.header.height ≠ 0) :
    left.loadOrNew P S env old.network ≠ (.ok loaded, repaired) := by
  intro opened
  have notPruned : recordsPruned (some (dir.metaOf id old)) = false := by
    simp [recordsPruned, metaOf, Chain.isPruned, archive]
  have keeps : left.recoverUncommittedArchiveTail P S env old.network = left := by
    rcases @recoverUncommittedArchiveTail_cases P S left env old.network with
      settled | ⟨record, found, blocks, truncates, -⟩
    · rcases settled with same | ⟨missing, -⟩
      · exact same
      · rw [unpublished.owner] at missing
        cases missing
    · exfalso
      have read := truncates.read
      rw [unpublished.record] at read
      obtain rfl := Option.some.inj read
      have held := truncates.held
      rw [unpublished.held] at held
      obtain rfl := Option.some.inj held
      have inside : blocks <+: stored :=
        Serde.readBlocks_prefix unpublished.storable (List.take_prefix _ _) truncates.decoded
      have verified := truncates.verified
      unfold prefixMatches at verified
      cases reached : Chain.applyAll env.recoverNow
          (Chain.newFair P (dir.metaOf id old).network) blocks with
      | error error =>
          rw [reached] at verified
          cases verified
      | ok last =>
          rw [reached] at verified
          simp only [Bool.and_eq_true, decide_eq_true_eq] at verified
          obtain ⟨⟨⟨-, count⟩, -⟩, -⟩ := verified
          cases blocks with
          | nil =>
              obtain rfl := Except.ok.inj reached
              have empty := verifies count.symm
              apply truncates.recorded
              rw [committed.recordedBytes, empty]
              rfl
          | cons block others =>
              rw [shape] at inside
              obtain rfl := (List.cons_prefix_cons.mp inside).1
              rw [← replayStored_untrusted] at reached
              exact above (height_of_replayStored (Chain.tracked_newFair _) reached)
  have sameNetwork : (dir.metaOf id old).network = old.network := rfl
  rw [loadOrNew_repaired unpublished.journal unpublished.record sameNetwork unpublished.held keeps
    unpublished.owner] at opened
  obtain ⟨loads, rfl⟩ := Prod.mk.inj opened
  obtain ⟨_, start, started, found, read, replayed, _⟩ := loadFiles_eq_ok.mp loads
  obtain rfl := unpublished.read read
  rw [unpublished.record, startOf, if_neg (by simp [notPruned])] at started
  obtain rfl := Except.ok.inj started
  rw [shape] at replayed
  exact above (height_of_replayStored (Chain.tracked_newFair old.network) replayed)

/-! ## The files of a pruned save -/

section Files

variable {new : Chain P} {horizon : LedgerState P} {draw : Bytes}

/-- Everything that a pruned save does before it publishes the metadata. -/
def prunedFiles (S : Serde) (dir : Datadir) (chain : Chain P) : SavePlan :=
  ((writeHeaders S chain).andThen (writeHorizon S chain)).andThen (dir.saveBodies S chain)

theorem savePruned_eq : dir.savePruned S draw new =
    dir.thenMeta S draw new (dir.prunedFiles S new) :=
  rfl

theorem prunedFiles_eq (present : new.horizon = some horizon) :
    dir.prunedFiles S new =
      ⟨(replace (.temporary .headers) .headers (headersText S new.headers) ++
        replace (.temporary .horizon) .horizon (S.horizonJson (horizonToFile horizon))) ++
          (dir.saveBodies S new).effects, (dir.saveBodies S new).verdict⟩ := by
  rw [prunedFiles, sideFiles_written present, SavePlan.andThen_of_ok rfl]

/-- The blocks that the block file holds behind a pruned save. -/
def savedBodies (S : Serde) (dir : Datadir) (old new : Chain P) : List Block :=
  if dir.savesBodiesAnew S new then new.blocks
  else old.blocks ++ new.blocks.drop (dir.storedBlockCount S - new.firstHeight)

theorem format_rewriteBodies (written : (S.writeBlocks dir.format new.blocks).2 = true) :
    (dir.after (dir.rewriteBodies S new).effects).format = dir.format := by
  rw [rewriteBodies_of_written written]
  have replaced := @after_replace_blocks dir (S.encode dir.format new.blocks)
  have outside {name : FileName} (plain : name ∈ [FileName.blocksBin, .blocksJsonl]) :
      name ∉ [FileName.temporary dir.blocksPath] := by
    rintro member
    obtain rfl := List.mem_singleton.mp member
    simp at plain
  exact (replaced.format (outside (by simp)) (outside (by simp))).trans format_withBlocks

/-- The files of a save that wrote bodies, before the metadata are published. -/
theorem Committed.unpublished (committed : Committed S dir id old)
    (storable : ∀ block ∈ old.blocks, S.Storable dir.format block)
    (versions : ∀ block ∈ new.blocks, block.header.version = protocolVersion)
    (present : new.horizon = some horizon)
    (done : (dir.saveBodies S new).verdict = .ok ())
    (writes : dir.savesBodiesAnew S new = true ∨ dir.storedBlockCount S < new.blockCount) :
    Unpublished S dir id old (dir.after (dir.prunedFiles S new).effects)
      (dir.savedBodies S old new) := by
  let sides : List (Effect FileName) :=
    replace (.temporary .headers) .headers (headersText S new.headers) ++
    replace (.temporary .horizon) .horizon (S.horizonJson (horizonToFile horizon))
  have same : SameBut [.temporary .headers, .headers, .temporary .horizon, .horizon] dir
      (dir.after sides) := sameBut_after names_sideFiles
  have format := same.format (by simp) (by simp)
  have shape : dir.after (dir.prunedFiles S new).effects =
      (dir.after sides).after (dir.saveBodies S new).effects := by
    rw [prunedFiles_eq present]
    exact after_concat _ _ _
  have finish {left : Datadir} {stored : List Block}
      (others : SameBut [.blocksBin, .blocksJsonl, .temporary .blocksBin, .temporary .blocksJsonl]
        (dir.after sides) left) (sameFormat : left.format = (dir.after sides).format)
      (held : left left.blocksPath = some (S.encode left.format stored))
      (fits : ∀ block ∈ stored, S.Storable dir.format block) :
      Unpublished S dir id old left stored := by
    refine ⟨held, ?_, ?_, ?_, ?_⟩
    · rw [sameFormat, format]
      exact fits
    · rw [others.readMeta (by simp), same.readMeta (by simp), committed.record]
    · rw [others.storedId (by simp), same.storedId (by simp), committed.owner]
    · rw [others _ (by simp), same _ (by simp), committed.journal]
  rw [shape]
  unfold savedBodies
  cases anew : dir.savesBodiesAnew S new with
  | true =>
      have plan : dir.saveBodies S new = dir.rewriteBodies S new := by
        rw [saveBodies, anew, if_pos rfl]
      rw [plan] at done ⊢
      have written : (S.writeBlocks dir.format new.blocks).2 = true := by
        by_contra failed
        rw [rewriteBodies_of_not_written (by simpa using failed)] at done
        cases done
      rw [← rewriteBodies_congr format]
      obtain ⟨_, bodies⟩ := @rewriteBodies_writes P S (dir.after sides) new
        (by rw [format]; exact written)
      have sameFormat : ((dir.after sides).after
          ((dir.after sides).rewriteBodies S new).effects).format = (dir.after sides).format :=
        format_rewriteBodies (by rw [format]; exact written)
      exact finish bodies.same sameFormat bodies.bodies
        (Serde.storable_of_writeBlocks written versions)
  | false =>
      have more : dir.storedBlockCount S < new.blockCount := by
        rw [anew] at writes
        exact writes.resolve_left Bool.false_ne_true
      have plan : dir.saveBodies S new = dir.appendBlocks S
          (new.blocks.drop (dir.storedBlockCount S - new.firstHeight)) := by
        rw [saveBodies, anew, if_neg Bool.false_ne_true, if_pos more]
      rw [plan] at done ⊢
      have written : (S.writeBlocks dir.format
          (new.blocks.drop (dir.storedBlockCount S - new.firstHeight))).2 = true := by
        by_contra failed
        rw [appendBlocks_eq, if_neg failed] at done
        cases done
      have fresh := Serde.storable_of_writeBlocks written
        fun block member => versions block (List.mem_of_mem_drop member)
      have both : ∀ block ∈ old.blocks ++
          new.blocks.drop (dir.storedBlockCount S - new.firstHeight),
          S.Storable dir.format block := by
        intro block member
        rcases List.mem_append.mp member with here | there
        · exact storable block here
        · exact fresh block there
      have before : dir.after sides (dir.after sides).blocksPath =
          some (S.encode dir.format old.blocks) := by
        rw [same.blocks (by simp) (by simp), committed.bodies]
      rw [← appendBlocks_congr format, appendBlocks_eq, after_append, before, Option.getD_some,
        format, ← Serde.encode_append storable]
      refine finish (sameBut_withBlocks.mono (by simp)) format_withBlocks ?_ both
      rw [blocksPath_withBlocks, withBlocks_blocksPath, format_withBlocks, format]
      rfl

end Files

end Datadir

end Nightfall
