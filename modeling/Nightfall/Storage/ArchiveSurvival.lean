import Nightfall.Storage.ArchiveCrash
import Nightfall.Storage.Sample

/-!
# When an interrupted save of an archive is survived

Between the replacement of the block file and the publication of the metadata the record
tells old blocks from new ones by the length of the file alone.  The save survives every
interruption exactly when the lengths differ and nothing is appended to an empty file.
-/

namespace Nightfall

open Files

variable {P : Primitives}

theorem Chain.VerifiedBy.stored {chain : Chain P} {moment : UInt64}
    (verified : chain.VerifiedBy moment) :
    ∀ block ∈ chain.blocks, (Chain.newFair P chain.network).storedForm block = block := by
  have linked : Linked P chain.network chain.blocks :=
    verified.restorable.holds.follows.describes.linked
  exact linked.forall_mem fun _ _ links => Chain.storedForm_of_stored links.stored

namespace Datadir

variable {S : Serde} {dir left : Datadir} {id draw content : Bytes} {env : LoadEnv}
  {before after next chain : Chain P} {moment later : UInt64} {known : Set BlockHeader}

/-- A save of the chain succeeds, and every load behind it gives the chain back. -/
def SavesExactly (S : Serde) (dir : Datadir) (chain : Chain P) : Prop :=
  ∀ draw, IsDraw draw → (dir.save S draw chain).verdict = .ok () ∧
    ∀ env, ∃ last, (dir.after (dir.save S draw chain).effects).loadOrNew P S env chain.network =
        (.ok last, dir.after (dir.save S draw chain).effects) ∧
      last.withoutUndos = chain.withoutUndos

/-- An archive that extends the loaded one and that the format can hold. -/
structure Extends (S : Serde) (known : Set BlockHeader) (format : Format)
    (loaded next : Chain P) : Prop where
  network : next.network = loaded.network
  continues : loaded.blocks <+: next.blocks
  verified : ∃ moment, next.VerifiedBy moment
  headersKnown : ∀ block ∈ next.blocks, block.header ∈ known
  storable : ∀ block ∈ next.blocks, S.Storable format block
  legible : S.Legible format next.blocks

/-- The next start loads one of the two chains, and saves its extensions exactly. -/
def Survives (S : Serde) (known : Set BlockHeader) (moment : UInt64) (left : Datadir)
    (before after : Chain P) : Prop :=
  ∀ env : LoadEnv, env.NotBefore moment → ∃ loaded repaired,
    left.loadOrNew P S env before.network = (.ok loaded, repaired) ∧
    (loaded.withoutUndos = before.withoutUndos ∨ loaded.withoutUndos = after.withoutUndos) ∧
    ∀ next : Chain P, Extends S known repaired.format loaded next → repaired.SavesExactly S next

/-- Two archives between which a save can be interrupted anywhere. -/
structure Interruptible (S : Serde) (format : Format) (before after : Chain P) : Prop where
  legible : S.Legible format before.blocks
  /-- Nothing is appended to an empty file. -/
  started : before.blocks = [] → S.encode format after.blocks = []
  /-- Blocks are appended only to their own history. -/
  appended : before.HeadersContinue after → before.blocks.length < after.blocks.length →
    (S.writeBlocks format (after.blocks.drop before.blocks.length)).2 = true →
    before.blocks <+: after.blocks
  /-- A new block file has another length than the old one. -/
  rewritten : ¬before.HeadersContinue after → (S.writeBlocks format after.blocks).2 = true →
    S.Legible format after.blocks ∧
      (S.encode format after.blocks).length ≠ (S.encode format before.blocks).length

/-! ## The save after the start -/

/-- A save that continues the block file is exact. -/
theorem savesExactly_of_continues (journal : dir .recoveryJournal = none)
    (verified : next.VerifiedBy moment)
    (storable : ∀ block ∈ next.blocks, S.Storable dir.format block)
    (legible : S.Legible dir.format next.blocks) (continues : dir.Continues S next) :
    dir.SavesExactly S next := by
  intro draw isDraw
  obtain ⟨done, committed⟩ := @save_commits P S dir draw next.withoutUndos next.blocks isDraw journal
    verified.restorable storable continues
  refine ⟨done, fun env => ?_⟩
  have stores : next.withoutUndos.Stores S (dir.after (dir.save S draw next).effects).format
      next.blocks := by
    rw [format_save]
    exact verified.stores storable legible
  obtain ⟨last, loaded, same⟩ := @Committed.load P S _ _ env next.withoutUndos next.blocks committed
    stores
  exact ⟨last, loaded, same⟩

theorem Committed.continues (committed : Committed S dir id before)
    (verifiedBefore : before.VerifiedBy moment) (verifiedNext : next.VerifiedBy later)
    (prefixed : before.blocks <+: next.blocks) : dir.Continues S next := by
  intro _
  rw [committed.storedBlockCount_eq, verifiedBefore.blockCount, verifiedNext.archive, Nat.sub_zero,
    ← List.prefix_iff_eq_take.mp prefixed]
  exact committed.bodies

/-- Behind a completed save the extensions of its chain are saved exactly. -/
theorem Committed.savesExactly_next (committed : Committed S left id chain)
    (verified : chain.VerifiedBy moment) {loaded : Chain P}
    (same : loaded.withoutUndos = chain.withoutUndos)
    (longer : Extends S known left.format loaded next) : left.SavesExactly S next := by
  obtain ⟨later, verifiedNext⟩ := longer.verified
  have blocks : loaded.withoutUndos.blocks = chain.withoutUndos.blocks :=
    congrArg Chain.blocks same
  have continues := longer.continues
  rw [show loaded.blocks = chain.blocks from blocks] at continues
  exact savesExactly_of_continues committed.journal verifiedNext longer.storable longer.legible
    (committed.continues verified verifiedNext continues)

/-- The next start finds a completed save. -/
theorem Committed.survives (committed : Committed S left id chain)
    (verified : chain.VerifiedBy moment)
    (storable : ∀ block ∈ chain.blocks, S.Storable left.format block)
    (legible : S.Legible left.format chain.blocks) (env : LoadEnv) :
    ∃ loaded repaired, left.loadOrNew P S env chain.network = (.ok loaded, repaired) ∧
      loaded.withoutUndos = chain.withoutUndos ∧
      ∀ next : Chain P, Extends S known repaired.format loaded next →
        repaired.SavesExactly S next := by
  obtain ⟨loaded, opened, same⟩ := @Committed.load P S left id env chain.withoutUndos chain.blocks
    (committed_withoutUndos.mpr committed) (verified.stores storable legible)
  exact ⟨loaded, left, opened, same, fun next => committed.savesExactly_next verified same⟩

theorem savesAnew_congr (record : left.readMeta S = dir.readMeta S)
    (present : (left left.blocksPath).isNone = (dir dir.blocksPath).isNone) :
    left.savesAnew S chain = dir.savesAnew S chain := by
  have count : left.storedBlockCount S = dir.storedBlockCount S := by
    rw [storedBlockCount, record, storedBlockCount]
  have tip : left.storedTip S = dir.storedTip S := by rw [storedTip, record, storedTip]
  rw [savesAnew, savesAnew, count, tip, present]

section Branches

variable (collisionFree : Set.InjOn (BlockHeader.hash P) known)
  (committed : Committed S dir id before) (verifiedBefore : before.VerifiedBy moment)
  (verifiedAfter : after.VerifiedBy moment) (network : after.network = before.network)
  (beforeKnown : ∀ block ∈ before.blocks, block.header ∈ known)
  (afterKnown : ∀ block ∈ after.blocks, block.header ∈ known)

include collisionFree committed verifiedBefore verifiedAfter network beforeKnown afterKnown

omit verifiedAfter afterKnown in
/-- Behind a replaced block file every extension of the new chain is written anew. -/
theorem Committed.rewrites_next (holding : Holding S dir content left)
    (diverged : ¬before.HeadersContinue after)
    (branch : after.HeadersContinue before → before.HeadersContinue after)
    (verifiedNext : next.VerifiedBy later) (sameNetwork : next.network = after.network)
    (nextKnown : ∀ block ∈ next.blocks, block.header ∈ known)
    (continues : after.blocks <+: next.blocks) : left.savesAnew S next = true := by
  have same : left.savesAnew S next = dir.savesAnew S next :=
    savesAnew_congr holding.record (by rw [holding.held, committed.bodies]; rfl)
  by_contra keeps
  rw [Bool.not_eq_true, same, committed.savesAnew_eq_false collisionFree verifiedBefore verifiedNext
    (sameNetwork.trans network) beforeKnown nextKnown] at keeps
  have ahead : after.HeadersContinue next := continues.map _
  rcases List.prefix_or_prefix_of_prefix keeps ahead with first | second
  · exact diverged first
  · exact diverged (branch second)

/-- A replaced block file is survived. -/
theorem Committed.survives_rewritten
    (branch : after.HeadersContinue before → before.HeadersContinue after)
    (holding : Holding S dir (S.encode dir.format after.blocks) left)
    (diverged : ¬before.HeadersContinue after)
    (storable : ∀ block ∈ after.blocks, S.Storable dir.format block)
    (legible : S.Legible dir.format after.blocks)
    (differs : (S.encode dir.format after.blocks).length ≠
      (S.encode dir.format before.blocks).length) (clock : env.NotBefore moment) :
    ∃ loaded repaired, left.loadOrNew P S env before.network = (.ok loaded, repaired) ∧
      loaded.withoutUndos = after.withoutUndos ∧
      ∀ next : Chain P, Extends S known repaired.format loaded next →
        repaired.SavesExactly S next := by
  have keeps : left.recoverUncommittedArchiveTail P S env before.network = left :=
    committed.keeps_rewritten collisionFree verifiedBefore verifiedAfter beforeKnown afterKnown
      storable diverged holding
  obtain ⟨loaded, opened, same⟩ := committed.load_rewritten verifiedAfter network storable legible
    verifiedBefore.archive keeps holding differs clock
  refine ⟨loaded, left, opened, same, fun next longer => ?_⟩
  obtain ⟨later, verifiedNext⟩ := longer.verified
  have blocks : loaded.withoutUndos.blocks = after.withoutUndos.blocks :=
    congrArg Chain.blocks same
  have networks : loaded.withoutUndos.network = after.withoutUndos.network :=
    congrArg Chain.network same
  have continues := longer.continues
  rw [show loaded.blocks = after.blocks from blocks] at continues
  have anew := committed.rewrites_next collisionFree verifiedBefore network beforeKnown
    holding diverged branch verifiedNext
    (longer.network.trans networks) longer.headersKnown continues
  refine savesExactly_of_continues (holding.journal.trans committed.journal) verifiedNext
    longer.storable longer.legible fun kept => ?_
  rw [rewrites, if_neg (by simp [Chain.isPruned, verifiedNext.archive]), anew] at kept
  contradiction

/-- A completed save leaves one of the two chains. -/
theorem Committed.publishes (isDraw : IsDraw draw) (interruptible : Interruptible S dir.format before after)
    (storableBefore : ∀ block ∈ before.blocks, S.Storable dir.format block)
    (done : (dir.saveArchive S draw after).verdict = .ok ()) :
    Committed S (dir.after (dir.saveArchive S draw after).effects) id before ∨
      Committed S (dir.after (dir.saveArchive S draw after).effects) id after ∧
        (∀ block ∈ after.blocks, S.Storable dir.format block) ∧
        S.Legible dir.format after.blocks := by
  have keeps := committed.savesAnew_eq_false collisionFree verifiedBefore verifiedAfter network
    beforeKnown afterKnown
  have plain : after.isPruned = false := by simp [Chain.isPruned, verifiedAfter.archive]
  have whole : dir.save S draw after = dir.saveArchive S draw after := by
    rw [save, plain, if_neg (by simp)]
  have commits (storable : ∀ block ∈ after.blocks, S.Storable dir.format block)
      (continues : dir.Continues S after) :
      Committed S (dir.after (dir.saveArchive S draw after).effects) id after := by
    have saved := (@save_commits P S dir draw after.withoutUndos after.blocks isDraw
      committed.journal verifiedAfter.restorable storable continues).2
    rw [installId_of_storedId committed.owner] at saved
    rw [← whole]
    exact committed_withoutUndos.mp saved
  cases anew : dir.savesAnew S after with
  | true =>
      have diverged : ¬before.HeadersContinue after := by
        rw [← keeps, anew]
        exact Bool.true_eq_false_eq_False
      have plan : dir.saveArchive S draw after =
          dir.thenMeta S draw after (dir.rewriteBodies S after) := by
        rw [saveArchive, anew, if_pos rfl]
      cases written : (S.writeBlocks dir.format after.blocks).2 with
      | false =>
          rw [plan, thenMeta, rewriteBodies_of_not_written written] at done
          contradiction
      | true =>
          have storable := Serde.storable_of_writeBlocks written verifiedAfter.versions
          refine .inr ⟨commits storable ?_, storable, (interruptible.rewritten diverged written).1⟩
          intro kept
          rw [rewrites, plain, if_neg (by simp), anew] at kept
          contradiction
  | false =>
      have continued := keeps.mp anew
      have shorter : before.blocks.length ≤ after.blocks.length := by
        simpa using continued.length_le
      have stored : dir.storedBlockCount S = before.blocks.length := by
        rw [committed.storedBlockCount_eq, verifiedBefore.blockCount]
      rcases shorter.eq_or_lt with equal | longer
      · -- The two chains have one record, and only the record is written.
        left
        have headers : before.blocks.map Block.header = after.blocks.map Block.header :=
          continued.eq_of_length (by simpa using equal)
        have tip : after.tipHash = before.tipHash := by
          rw [verifiedAfter.tipHash_eq, verifiedBefore.tipHash_eq, network, tipHashOf_congr headers]
        have count : after.blockCount = before.blockCount := by
          rw [verifiedAfter.blockCount, verifiedBefore.blockCount, equal]
        have archives : after.firstHeight = before.firstHeight := by
          rw [verifiedAfter.archive, verifiedBefore.archive]
        have works : after.horizonWork = before.horizonWork :=
          (verifiedAfter.restorable.base.archive verifiedAfter.archive).2.trans
            (verifiedBefore.restorable.base.archive verifiedBefore.archive).2.symm
        have records : dir.metaOf id after = dir.metaOf id before := by
          simp only [metaOf, network, count, tip, archives, Chain.isPruned, works]
        have plan : dir.saveArchive S draw after = dir.writeMeta S draw before := by
          rw [saveArchive, anew, if_neg (by simp), committed.storedBlockCount_eq, if_pos count.symm,
            writeMeta, writeMeta, installId_of_storedId committed.owner]
          simp only [records]
        rw [plan]
        have saved := committed_writeMeta isDraw committed.bodies committed.journal
          committed.headers committed.horizon
        rw [installId_of_storedId committed.owner] at saved
        exact saved
      · right
        have plan : dir.saveArchive S draw after = dir.thenMeta S draw after
            (dir.appendBlocks S (after.blocks.drop before.blocks.length)) := by
          rw [saveArchive, anew, if_neg (by simp), stored, verifiedAfter.blockCount,
            if_neg longer.ne]
        have written : (S.writeBlocks dir.format
            (after.blocks.drop before.blocks.length)).2 = true := by
          by_contra failed
          rw [plan, thenMeta, appendBlocks_eq, if_neg failed] at done
          contradiction
        have prefixed := interruptible.appended continued longer written
        have storable : ∀ block ∈ after.blocks, S.Storable dir.format block := by
          have newOnes := Serde.storable_of_writeBlocks written fun block member =>
            verifiedAfter.versions block (List.mem_of_mem_drop member)
          intro block member
          rw [← List.take_append_drop before.blocks.length after.blocks,
            ← List.prefix_iff_eq_take.mp prefixed, List.mem_append] at member
          exact member.elim (storableBefore block) (newOnes block)
        refine ⟨commits storable (committed.continues verifiedBefore verifiedAfter prefixed), storable,
          ?_⟩
        obtain ⟨rest, shape⟩ := prefixed
        cases front : before.blocks with
        | nil =>
            have nonempty : after.blocks ≠ [] := List.length_pos_iff.mp (by omega)
            exact absurd (interruptible.started front) (Serde.encode_ne_nil storable nonempty)
        | cons first others =>
            have legible := interruptible.legible
            rw [front] at legible
            rw [← shape, front]
            exact legible

/-- Every interruption of such a save is survived. -/
theorem Committed.survives_interrupted
    (branch : after.HeadersContinue before → before.HeadersContinue after)
    (isDraw : IsDraw draw) (interruptible : Interruptible S dir.format before after)
    (storableBefore : ∀ block ∈ before.blocks, S.Storable dir.format block)
    (interrupted : Interrupted dir (dir.saveArchive S draw after).effects left) :
    left.Survives S known moment before after := by
  intro env clock
  have keeps := committed.savesAnew_eq_false collisionFree verifiedBefore verifiedAfter network
    beforeKnown afterKnown
  have old {other : Datadir} (again : Committed S other id before)
      (format : other.format = dir.format) :=
    @Committed.survives P S other id before moment known again verifiedBefore
      (format ▸ storableBefore) (format ▸ interruptible.legible) env
  have oldSame {other : Datadir} (same : SameBut scratch dir other) :
      other.format = dir.format :=
    same.format (by simp [scratch]) (by simp [scratch])
  cases interrupted_saveArchive committed.owner committed.bodies interrupted with
  | unchanged same =>
      obtain ⟨loaded, repaired, opened, sameChain, exact'⟩ :=
        old (committed_unless_scratch committed same) (oldSame same)
      exact ⟨loaded, repaired, opened, .inl sameChain, exact'⟩
  | appended kept part torn inside same =>
      have nonempty : before.blocks ≠ [] := by
        intro empty
        rw [committed.storedBlockCount_eq, verifiedBefore.blockCount, empty, List.length_nil,
          List.drop_zero, interruptible.started empty, List.prefix_nil] at inside
        exact torn inside
      rw [committed.bodies, Option.getD_some] at same
      obtain ⟨loaded, repaired, opened, sameChain, again, -⟩ := committed.load_torn verifiedBefore
        storableBefore interruptible.legible nonempty torn same clock
      refine ⟨loaded, repaired, opened, .inl sameChain, fun next longer => ?_⟩
      exact again.savesExactly_next verifiedBefore sameChain longer
  | rewritten anew written same =>
      have diverged : ¬before.HeadersContinue after := by
        rw [← keeps, anew]
        simp
      have storable := Serde.storable_of_writeBlocks written verifiedAfter.versions
      obtain ⟨legible, differs⟩ := interruptible.rewritten diverged written
      obtain ⟨loaded, repaired, opened, sameChain, exact'⟩ := committed.survives_rewritten
        collisionFree verifiedBefore verifiedAfter network beforeKnown afterKnown branch same.holding
        diverged storable legible differs clock
      exact ⟨loaded, repaired, opened, .inr sameChain, exact'⟩
  | published done same =>
      have plain : dir.save S draw after = dir.saveArchive S draw after := by
        rw [save, if_neg (by simp [Chain.isPruned, verifiedAfter.archive])]
      have format : left.format = dir.format := by
        rw [same.format (by simp [scratch]) (by simp [scratch]), ← plain]
        exact format_save
      rcases committed.publishes collisionFree verifiedBefore verifiedAfter network beforeKnown
        afterKnown isDraw interruptible storableBefore done with again | ⟨saved, storable, legible⟩
      · obtain ⟨loaded, repaired, opened, sameChain, exact'⟩ :=
          old (committed_unless_scratch again same) format
        exact ⟨loaded, repaired, opened, .inl sameChain, exact'⟩
      · have there := committed_unless_scratch saved same
        rw [← format] at storable legible
        obtain ⟨loaded, repaired, opened, sameChain, exact'⟩ :=
          @Committed.survives P S left id after moment known there verifiedAfter storable legible env
        rw [network] at opened
        exact ⟨loaded, repaired, opened, .inr sameChain, exact'⟩

end Branches

/-! ## The interruptions that are not survived -/

theorem not_survives_of_refused (draw : Bytes)
    (refused : ∃ error repaired, left.loadOrNew P S ⟨moment, moment, draw⟩ before.network =
      (.error error, repaired)) : ¬left.Survives S known moment before after := by
  intro survives
  have clock : (LoadEnv.mk moment moment draw).NotBefore moment := ⟨UInt64.le_refl _, UInt64.le_refl _⟩
  obtain ⟨loaded, repaired, opened, -⟩ := survives _ clock
  obtain ⟨error, other, failed⟩ := refused
  rw [failed] at opened
  cases opened

/-- What a load of an archive gives holds the blocks that the file holds. -/
theorem blocks_of_loadFiles {record : ChainMeta} {network : NetworkId} {stored : List Block}
    (read : left.readMeta S = some record) (archive : record.pruned = false)
    (first : record.firstHeight = 0)
    (decoded : S.readBlocks left.format ((left left.blocksPath).getD []) = some stored)
    (loaded : left.loadFiles P S env network true = .ok chain) :
    chain.blocks = stored.map (Chain.newFair P network).storedForm := by
  rw [loadFiles_eq_ok, read] at loaded
  obtain ⟨-, start, started, found, again, replayed, -⟩ := loaded
  rw [decoded] at again
  obtain rfl := Option.some.inj again
  rw [startOf, if_neg (by simp [recordsPruned, archive, first])] at started
  obtain rfl := Except.ok.inj started
  exact blocks_of_replayStored replayed

/-- Blocks behind another history make a chain of their own. -/
theorem Committed.appended_foreign (committed : Committed S dir id before) (isDraw : IsDraw draw)
    (verifiedBefore : before.VerifiedBy moment) (verifiedAfter : after.VerifiedBy moment)
    (network : after.network = before.network) (kept : dir.savesAnew S after = false)
    (storable : ∀ block ∈ before.blocks, S.Storable dir.format block)
    (longer : before.blocks.length < after.blocks.length)
    (written : (S.writeBlocks dir.format (after.blocks.drop before.blocks.length)).2 = true)
    (survives : (dir.after (dir.saveArchive S draw after).effects).Survives S known moment before
      after) : before.blocks <+: after.blocks := by
  have stored : dir.storedBlockCount S = before.blocks.length := by
    rw [committed.storedBlockCount_eq, verifiedBefore.blockCount]
  have plan : dir.saveArchive S draw after = dir.thenMeta S draw after
      (dir.appendBlocks S (after.blocks.drop before.blocks.length)) := by
    rw [saveArchive, kept, if_neg (by simp), stored, verifiedAfter.blockCount, if_neg longer.ne]
  -- The file holds the old blocks and the new ones behind them.
  let mixed := before.blocks ++ after.blocks.drop before.blocks.length
  have storableNew := Serde.storable_of_writeBlocks written fun block member =>
    verifiedAfter.versions block (List.mem_of_mem_drop member)
  have storableMixed : ∀ block ∈ mixed, S.Storable dir.format block := fun block member =>
    (List.mem_append.mp member).elim (storable block) (storableNew block)
  let written' : Datadir := dir.withBlocks (S.encode dir.format mixed)
  have plain : dir.after (dir.appendBlocks S (after.blocks.drop before.blocks.length)).effects =
      written' := by
    rw [appendBlocks_eq, after_append, committed.bodies, Option.getD_some,
      ← Serde.encode_append storable]
  have done : (dir.appendBlocks S (after.blocks.drop before.blocks.length)).verdict = .ok () := by
    rw [appendBlocks_eq, written, if_pos rfl]
  -- The metadata is that of the new chain, whose bodies are taken to be those of the file.
  let read : Chain P := { after with blocks := mixed }
  have headers : after.headers ≠ [] := by
    have listed : after.headers = after.blocks.map (CompactHeader.fromBlock P) :=
      verifiedAfter.restorable.holds.follows.describes.headers
    rw [listed]
    simpa using List.length_pos_iff.mp (Nat.zero_lt_of_lt longer)
  have count : read.blockCount = after.blockCount := by
    rw [Chain.blockCount, Chain.blockCount, if_pos headers, if_pos headers]
  have tip : read.tipHash = after.tipHash := by
    rw [Chain.tipHash, Chain.tipHash, List.getLast?_eq_some_getLast headers, Option.map_some,
      Option.some_or, Option.some_or]
  have owner : written'.storedId = some id := by
    rw [sameBut_withBlocks.storedId (by simp), committed.owner]
  have records : written'.metaOf id after = written'.metaOf id read := by
    simp only [metaOf, count, tip, Chain.isPruned, read]
  have record : written'.writeMeta S draw after = written'.writeMeta S draw read := by
    rw [writeMeta, writeMeta, installId_of_storedId owner]
    simp only [records]
  have reached : dir.after (dir.saveArchive S draw after).effects =
      written'.after (written'.writeMeta S draw read).effects := by
    rw [plan, (after_thenMeta done).2, plain, record]
  have noSides {what : Prop} (pruned : 0 < read.firstHeight) : what :=
    absurd verifiedAfter.archive pruned.ne'
  have holding : Holding S dir (S.encode dir.format mixed) written' := SameBut.refl.holding
  have saved := @committed_writeMeta P S written' draw read isDraw
    (by rw [holding.held, holding.format]) (holding.journal.trans committed.journal) noSides noSides
  rw [installId_of_storedId owner, ← reached] at saved
  have format : (dir.after (dir.saveArchive S draw after).effects).format = dir.format := by
    rw [reached, (sameBut_after names_writeMeta).format (by simp) (by simp), holding.format]
  have clock : (LoadEnv.mk moment moment draw).NotBefore moment :=
    ⟨UInt64.le_refl _, UInt64.le_refl _⟩
  obtain ⟨loaded, repaired, opened, same, -⟩ := survives _ clock
  have keeps := @recoverUncommittedArchiveTail_of_le P S _ _ ⟨moment, moment, draw⟩ before.network
    _ _ saved.record saved.owner saved.bodies saved.recordedBytes.ge
  rw [loadOrNew_repaired saved.journal saved.record network saved.bodies keeps saved.owner] at opened
  have ok := (Prod.mk.inj opened).1
  have nonempty : mixed ≠ [] := by
    apply List.length_pos_iff.mp
    rw [List.length_append, List.length_drop]
    omega
  have trusted : ((dir.after (dir.saveArchive S draw after).effects).isOwnFileTrusted S draw).1 =
      true :=
    isOwnFileTrusted_eq_true.mpr ⟨_, saved.record, Bytes32.toHex_ne_nil _,
      storedId_ne_nil saved.owner, (by rw [installId_of_storedId saved.owner]; rfl),
      saved.hasRecordedLength nonempty (by rw [format]; exact storableMixed),
      .inl ⟨by simp [metaOf, Chain.isPruned, read, verifiedAfter.archive], verifiedAfter.archive⟩⟩
  rw [trusted] at ok
  have legible : S.Legible dir.format mixed := by
    by_contra illegible
    obtain ⟨-, -, -, stored', found, -⟩ := loadFiles_eq_ok.mp ok
    rw [saved.bodies, Option.getD_some, format,
      Serde.readBlocks_of_not_legible storableMixed illegible] at found
    contradiction
  have held := blocks_of_loadFiles saved.record
    (by simp [metaOf, Chain.isPruned, read, verifiedAfter.archive]) verifiedAfter.archive
    (by
      rw [saved.bodies, Option.getD_some, format]
      exact Serde.readBlocks_encode storableMixed legible) ok
  have own : mixed.map (Chain.newFair P before.network).storedForm = mixed := by
    refine (List.map_congr_left fun block member => ?_).trans (List.map_id _)
    rcases List.mem_append.mp member with front | back
    · exact verifiedBefore.stored block front
    · rw [← network]
      exact verifiedAfter.stored block (List.mem_of_mem_drop back)
  rw [own] at held
  rcases same with old | new
  · have blocks : loaded.withoutUndos.blocks = before.withoutUndos.blocks :=
      congrArg Chain.blocks old
    have lengths := congrArg List.length (held.symm.trans blocks)
    change mixed.length = before.blocks.length at lengths
    rw [List.length_append, List.length_drop] at lengths
    omega
  · have blocks : loaded.withoutUndos.blocks = after.withoutUndos.blocks :=
      congrArg Chain.blocks new
    exact ⟨_, held.symm.trans blocks⟩

/-- A save that survives every interruption is interruptible. -/
theorem Committed.interruptible_of_survives (collisionFree : Set.InjOn (BlockHeader.hash P) known)
    (committed : Committed S dir id before) (isDraw : IsDraw draw)
    (verifiedBefore : before.VerifiedBy moment) (verifiedAfter : after.VerifiedBy moment)
    (network : after.network = before.network)
    (beforeKnown : ∀ block ∈ before.blocks, block.header ∈ known)
    (afterKnown : ∀ block ∈ after.blocks, block.header ∈ known)
    (storable : ∀ block ∈ before.blocks, S.Storable dir.format block)
    (survives : ∀ left : Datadir, Interrupted dir (dir.saveArchive S draw after).effects left →
      left.Survives S known moment before after) : Interruptible S dir.format before after := by
  have keeps := committed.savesAnew_eq_false collisionFree verifiedBefore verifiedAfter network
    beforeKnown afterKnown
  have stored : dir.storedBlockCount S = before.blocks.length := by
    rw [committed.storedBlockCount_eq, verifiedBefore.blockCount]
  refine ⟨?_, ?_, ?_, ?_⟩
  · by_contra illegible
    exact not_survives_of_refused draw (committed.load_illegible storable illegible)
      (survives dir .stop)
  · intro empty
    by_contra some'
    obtain ⟨byte, rest, shape⟩ := List.exists_cons_of_ne_nil some'
    have continued : before.HeadersContinue after := by simp [Chain.HeadersContinue, empty]
    have anew := keeps.mpr continued
    have nonempty : after.blocks ≠ [] := by
      intro none
      rw [none] at shape
      cases shape
    have plan : dir.saveArchive S draw after =
        dir.thenMeta S draw after (dir.appendBlocks S after.blocks) := by
      rw [saveArchive, anew, if_neg (by simp), stored, verifiedAfter.blockCount, empty,
        List.length_nil, if_neg (List.length_pos_iff.mpr nonempty).ne, List.drop_zero]
    have torn : Interrupted dir (dir.appendBlocks S after.blocks).effects
        (dir.withBlocks [byte]) := by
      rw [appendBlocks_eq, shape]
      have bodies := committed.bodies
      rw [empty, Serde.encode_nil] at bodies
      have cut := @Effect.Torn.append FileName _ dir dir.blocksPath (byte :: rest) [byte]
        (List.prefix_append [byte] rest)
      rw [bodies] at cut
      exact .torn cut
    refine not_survives_of_refused draw ?_ (survives (dir.withBlocks [byte]) ?_)
    · exact committed.load_torn_first empty rfl shape SameBut.refl.holding
    · rw [plan, thenMeta, SavePlan.andThen]
      split
      · exact torn.append_left
      · exact torn
  · intro continued longer written
    exact committed.appended_foreign isDraw verifiedBefore verifiedAfter network (keeps.mpr continued)
      storable longer written (survives _ (Interrupted.whole _ _))
  · intro diverged written
    have anew : dir.savesAnew S after = true := by
      rw [← Bool.not_eq_false, keeps]
      exact diverged
    have storableAfter := Serde.storable_of_writeBlocks written verifiedAfter.versions
    have plan : dir.saveArchive S draw after =
        dir.thenMeta S draw after (dir.rewriteBodies S after) := by
      rw [saveArchive, anew, if_pos rfl]
    have plainAfter : dir.save S draw after = dir.saveArchive S draw after := by
      rw [save, if_neg (by simp [Chain.isPruned, verifiedAfter.archive])]
    constructor
    · by_contra illegible
      have saved := (@save_commits P S dir draw after.withoutUndos after.blocks isDraw
        committed.journal verifiedAfter.restorable storableAfter (by
          intro kept
          rw [rewrites, if_neg (by simp [Chain.isPruned, Chain.withoutUndos, verifiedAfter.archive])]
            at kept
          exact absurd (anew.symm.trans kept) (by simp))).2
      rw [installId_of_storedId committed.owner] at saved
      have last := committed_withoutUndos.mp saved
      change Committed S (dir.after (dir.save S draw after).effects) id after at last
      have format : (dir.after (dir.save S draw after).effects).format = dir.format := format_save
      refine not_survives_of_refused draw ?_ (survives _ (Interrupted.whole _ _))
      rw [← plainAfter, ← network]
      exact last.load_illegible (by rw [format]; exact storableAfter) (by rw [format]; exact illegible)
    · intro same
      have nonempty : before.blocks ≠ [] := by
        intro empty
        exact diverged (by simp [Chain.HeadersContinue, empty])
      have nonemptyAfter : after.blocks ≠ [] := by
        intro empty
        rw [empty, Serde.encode_nil] at same
        exact Serde.encode_ne_nil storable nonempty (List.length_eq_zero_iff.mp same.symm)
      have tips : after.tipHash ≠ before.tipHash := by
        intro equal
        have linked : Linked P before.network before.blocks :=
          verifiedBefore.restorable.holds.follows.describes.linked
        have linkedAfter : Linked P before.network after.blocks := by
          rw [← network]
          exact verifiedAfter.restorable.holds.follows.describes.linked
        have headers := headers_eq_of_tipHash_eq collisionFree linked linkedAfter beforeKnown
          afterKnown nonempty nonemptyAfter (by
            rw [← verifiedBefore.tipHash_eq, ← equal, verifiedAfter.tipHash_eq, network])
        rw [Chain.HeadersContinue, headers] at diverged
        exact diverged (List.prefix_refl _)
      have holding : Holding S dir (S.encode dir.format after.blocks)
          (dir.after (dir.rewriteBodies S after).effects) := by
        rw [rewriteBodies_of_written written]
        exact (after_replace_blocks.mono (by simpa using temporary_blocksPath_scratch)).holding
      refine not_survives_of_refused draw (committed.load_rewritten_same_length
        verifiedBefore.archive verifiedAfter network storableAfter holding same nonemptyAfter tips)
        (survives _ ?_)
      rw [plan, thenMeta, SavePlan.andThen]
      split
      · exact (Interrupted.whole _ _).append_left
      · exact Interrupted.whole _ _

/-- A save of an archive over a committed one survives every interruption exactly when the
two are legible, a new block file has another length than the old one, nothing is appended
to an empty file, and blocks are appended only to their own history. -/
theorem save_survives_iff (collisionFree : Set.InjOn (BlockHeader.hash P) known)
    (committed : Committed S dir id before) (isDraw : IsDraw draw)
    (saved : (S.writeBlocks dir.format before.blocks).2 = true)
    (verifiedBefore : before.VerifiedBy moment) (verifiedAfter : after.VerifiedBy moment)
    (network : after.network = before.network)
    (branch : after.HeadersContinue before → before.HeadersContinue after)
    (beforeKnown : ∀ block ∈ before.blocks, block.header ∈ known)
    (afterKnown : ∀ block ∈ after.blocks, block.header ∈ known) :
    (∀ left : Datadir, Interrupted dir (dir.save S draw after).effects left →
      left.Survives S known moment before after) ↔ Interruptible S dir.format before after := by
  have storable := Serde.storable_of_writeBlocks saved verifiedBefore.versions
  have plain : dir.save S draw after = dir.saveArchive S draw after := by
    rw [save, if_neg (by simp [Chain.isPruned, verifiedAfter.archive])]
  rw [plain]
  constructor
  · exact committed.interruptible_of_survives collisionFree isDraw verifiedBefore verifiedAfter
      network beforeKnown afterKnown storable
  · intro interruptible left interrupted
    exact committed.survives_interrupted collisionFree verifiedBefore verifiedAfter network
      beforeKnown afterKnown branch isDraw interruptible storable interrupted

section Sample

open Sample

/-- What the first save of a chain makes of an empty directory. -/
noncomputable def savedDir (chain : Chain primitives) : Datadir :=
  Datadir.after (fun _ => none) (Datadir.save serde installation (fun _ => none) chain).effects

theorem committed_savedDir {chain : Chain primitives} (verified : chain.VerifiedBy moment)
    (inside : chain.blocks ⊆ [block0, block1, altered1, block2, block3]) :
    Committed serde (savedDir chain) installation chain := by
  have saved := @save_commits primitives serde (fun _ => none) installation chain.withoutUndos
    chain.blocks installation_isDraw rfl verified.restorable
    (fun block member => storable _ (inside member)) (by
      intro kept
      rw [rewrites, if_neg (by simp [Chain.isPruned, Chain.withoutUndos, verified.archive]), savesAnew]
        at kept
      simp at kept)
  exact committed_withoutUndos.mp saved.2

theorem sample_accepted : ((Chain.newFair primitives .devnet).applyBlock block0 now).1 = .ok () ∧
    chain1.blocks = [block0] ∧ (chain1.applyBlock block1 now).1 = .ok () ∧
    chain2.blocks = [block0, block1] := by
  decide +kernel

theorem verified_genesis : (Chain.newFair primitives .devnet).VerifiedBy now :=
  ⟨⟨_, rfl, rfl⟩, by simp [Chain.newFair]⟩

theorem reached_chain1 :
    Chain.applyAll now (Chain.newFair primitives .devnet) [block0] = .ok chain1 :=
  @Chain.applyAll_concat _ _ now (Chain.newFair primitives .devnet) [] block0 rfl sample_accepted.1

theorem reached_chain2 :
    Chain.applyAll now (Chain.newFair primitives .devnet) [block0, block1] = .ok chain2 :=
  @Chain.applyAll_concat _ _ now (Chain.newFair primitives .devnet) [block0] block1 reached_chain1
    sample_accepted.2.2.1

theorem verified_chain1 : chain1.VerifiedBy now :=
  .of_reached reached_chain1 sample_accepted.2.1 (by simp)

theorem verified_chain2 : chain2.VerifiedBy now :=
  .of_reached reached_chain2 sample_accepted.2.2.2 (by simp)

theorem sample_networks : chain1.network = .devnet ∧ chain2.network = .devnet :=
  ⟨((Chain.restorable_newFair _).applyAll reached_chain1 (by simp)).2.1,
    ((Chain.restorable_newFair _).applyAll reached_chain2 (by simp)).2.1⟩

theorem headers_collisionFree :
    Set.InjOn (BlockHeader.hash primitives) {block0.header, block1.header} := by
  have differs : BlockHeader.hash primitives block0.header ≠
      BlockHeader.hash primitives block1.header := by
    decide +kernel
  rintro _ (rfl | rfl) _ (rfl | rfl) same
  · rfl
  · exact absurd same differs
  · exact absurd same.symm differs
  · rfl

/-- A save of a second block survives every interruption. -/
theorem save_survives_second : chain1.HeadersContinue chain2 ∧ ∀ left : Datadir,
    Interrupted (savedDir chain1) ((savedDir chain1).save serde installation chain2).effects left →
      left.Survives serde {block0.header, block1.header} now chain1 chain2 := by
  obtain ⟨-, first, -, second⟩ := sample_accepted
  have inside : chain1.blocks ⊆ [block0, block1, altered1, block2, block3] := by simp [first]
  have continued : chain1.HeadersContinue chain2 := by simp [Chain.HeadersContinue, first, second]
  refine ⟨continued, (save_survives_iff headers_collisionFree
    (committed_savedDir verified_chain1 inside)
    installation_isDraw (Serde.writeBlocks_of_storable fun block member =>
      storable _ (inside member)) verified_chain1 verified_chain2
    (sample_networks.2.trans sample_networks.1.symm) (fun _ => continued) ?_ ?_).mpr
    ⟨legible _ inside, ?_, ?_, fun diverged => absurd continued diverged⟩⟩
  · simp [first]
  · simp [second]
  · simp [first]
  · simp [first, second]

/-- The first append of a new node may be torn, and the next start then refuses the file. -/
theorem first_append_lost : ¬∀ left : Datadir,
    Interrupted (savedDir (Chain.newFair primitives .devnet))
        ((savedDir (Chain.newFair primitives .devnet)).save serde installation chain1).effects left →
      left.Survives serde {block0.header, block1.header} now (Chain.newFair primitives .devnet)
        chain1 := by
  intro survives
  obtain ⟨-, first, -, -⟩ := sample_accepted
  have plain : (savedDir (Chain.newFair primitives .devnet)).save serde installation chain1 =
      (savedDir (Chain.newFair primitives .devnet)).saveArchive serde installation chain1 := by
    rw [save, if_neg (by simp [Chain.isPruned, verified_chain1.archive])]
  rw [plain] at survives
  have none : (Chain.newFair primitives .devnet).blocks = [] := rfl
  have interruptible := (committed_savedDir verified_genesis (by simp [none])).interruptible_of_survives
    headers_collisionFree installation_isDraw verified_genesis verified_chain1
    sample_networks.1 (by simp [none])
    (by simp [first]) (by simp [none]) survives
  exact Serde.encode_ne_nil (fun block member => storable _ (by simp_all)) (by simp [first])
    (interruptible.started none)

end Sample

end Datadir

end Nightfall
