import Nightfall.Storage.PrunedCrash

/-!
# Saves that append

A save that does not write the block file anew leaves in it the bodies of the last save and,
behind them, the blocks that the metadata do not count.  A start reads just these.
-/

namespace Nightfall

open Files

variable {P : Primitives}

namespace Datadir

variable {S : Serde} {dir left repaired : Datadir} {id draw content : Bytes} {env : LoadEnv}
  {network : NetworkId} {before chain loaded : Chain P} {full blocks : List Block} {plan : SavePlan}

/-! ## What a load reads -/

/-- The chain on which the stored blocks are replayed. -/
theorem startOf_empty {start : Chain P} {record : Option ChainMeta}
    (started : dir.startOf P S network record = .ok start) :
    start.blocks = [] ∧ start.network = network := by
  unfold startOf at started
  split at started
  · split at started
    · simp only [prunedStart, Guard.bind_eq_ok, Except.ok.injEq] at started
      obtain ⟨_, _, _, _, _, _, rfl⟩ := started
      exact ⟨rfl, rfl⟩
    · obtain rfl := Except.ok.inj started
      exact ⟨rfl, rfl⟩
  · obtain rfl := Except.ok.inj started
    exact ⟨rfl, rfl⟩

/-- A replay holds the replayed blocks, trusted or not. -/
theorem blocks_of_replay {trusted : Bool} {nowUnix : UInt64} {start last : Chain P}
    (tracked : trusted = false → start.Tracked)
    (replayed : replayStored trusted nowUnix start blocks = .ok last) :
    last.blocks = start.blocks ++ blocks.map start.storedForm := by
  cases trusted with
  | true => exact blocks_of_replayStored replayed
  | false =>
      rw [replayStored_untrusted, ← Chain.replayFrom_zero nowUnix 0] at replayed
      exact (Chain.blocks_of_replayFrom (tracked rfl) replayed).1

/-- A loaded chain holds the blocks that the file holds. -/
theorem blocks_of_loadFiles_eq_ok {trusted : Bool} {stored : List Block}
    (decoded : S.readBlocks dir.format ((dir dir.blocksPath).getD []) = some stored)
    (opened : dir.loadFiles P S env network trusted = .ok loaded) :
    loaded.blocks = stored.map (Chain.newFair P network).storedForm := by
  obtain ⟨guarded, start, started, found, again, replayed, -⟩ := loadFiles_eq_ok.mp opened
  rw [decoded] at again
  obtain rfl := Option.some.inj again
  obtain ⟨empty, sameNetwork⟩ := startOf_empty started
  have tracked (untrusted : trusted = false) : start.Tracked := by
    have archive : recordsPruned (dir.readMeta S) = false := by
      by_contra pruned
      rw [guarded (by simpa using pruned)] at untrusted
      cases untrusted
    unfold startOf at started
    split at started
    next record found =>
      rw [if_neg (by rw [← found, archive]; simp)] at started
      obtain rfl := Except.ok.inj started
      exact Chain.tracked_newFair network
    next =>
      obtain rfl := Except.ok.inj started
      exact Chain.tracked_newFair network
  rw [blocks_of_replay tracked replayed, empty, List.nil_append,
    Chain.storedForm_of_network_eq (show start.network = (Chain.newFair P network).network from
      sameNetwork)]

/-! ## Behind the metadata -/

theorem readMeta_after_writeMeta :
    (dir.after (dir.writeMeta S draw chain).effects).readMeta S =
      some (dir.metaOf (dir.installId draw).1 chain) := by
  have shape : dir.after (dir.writeMeta S draw chain).effects =
      (dir.after (dir.installId draw).2).after (replace (.temporary .chainMeta) .chainMeta
        (S.metaJson (dir.metaOf (dir.installId draw).1 chain))) :=
    after_concat _ _ _
  rw [readMeta, shape, after, run_replace_self (by simp)]
  exact S.metaOfJson_metaJson _

/-- A start behind published metadata reads the blocks that the file held. -/
theorem blocks_behind_meta {stored : List Block} (owner : dir.storedId = some id)
    (journal : dir .recoveryJournal = none)
    (held : dir dir.blocksPath = some (S.encode dir.format stored))
    (storable : ∀ block ∈ stored, S.Storable dir.format block)
    (opened : (dir.after (dir.writeMeta S draw chain).effects).loadOrNew P S env chain.network =
      (.ok loaded, repaired)) :
    loaded.blocks = stored.map (Chain.newFair P chain.network).storedForm := by
  have same : SameBut [.installId, .temporary .chainMeta, .chainMeta] dir
      (dir.after (dir.writeMeta S draw chain).effects) := sameBut_after names_writeMeta
  have read := @readMeta_after_writeMeta P S dir draw chain
  have bodies : dir.after (dir.writeMeta S draw chain).effects
      (dir.after (dir.writeMeta S draw chain).effects).blocksPath =
        some (S.encode dir.format stored) := by
    rw [same.blocks (by simp) (by simp), held]
  have format := same.format (by simp) (by simp)
  have owned : (dir.after (dir.writeMeta S draw chain).effects).storedId = some id := by
    have last : SameBut [.temporary .chainMeta, .chainMeta] dir
        (dir.after (dir.writeMeta S draw chain).effects) := by
      rw [writeMeta, installId_of_storedId owner]
      exact sameBut_after names_replace
    rw [last.storedId (by simp), owner]
  have keeps := @recoverUncommittedArchiveTail_of_le P S _ _ env chain.network _ _ read owned bodies
    (by rw [metaOf, sizeOf, held]; rfl)
  have sameNetwork : (dir.metaOf (dir.installId draw).1 chain).network = chain.network := rfl
  rw [loadOrNew_repaired ((same _ (by simp)).trans journal) read sameNetwork bodies keeps owned]
    at opened
  have loads := (Prod.mk.inj opened).1
  refine blocks_of_loadFiles_eq_ok ?_ loads
  rw [bodies, Option.getD_some, format]
  by_cases legible : S.Legible dir.format stored
  · exact Serde.readBlocks_encode storable legible
  · obtain ⟨-, -, -, found, again, -⟩ := loadFiles_eq_ok.mp loads
    rw [bodies, Option.getD_some, format, Serde.readBlocks_of_not_legible storable legible] at again
    cases again

/-- The bodies that an archive save leaves when it does not write the block file anew. -/
theorem saveArchive_keeps {stored : List Block}
    (held : dir dir.blocksPath = some (S.encode dir.format stored))
    (restorable : chain.Restorable full) (archive : chain.firstHeight = 0)
    (storable : ∀ block ∈ stored, S.Storable dir.format block)
    (fresh : ∀ block ∈ chain.blocks, S.Storable dir.format block)
    (kept : dir.savesAnew S chain = false) : ∃ plan : SavePlan, plan.verdict = .ok () ∧
      dir.saveArchive S draw chain = dir.thenMeta S draw chain plan ∧
      SameBut [.blocksBin, .blocksJsonl] dir (dir.after plan.effects) ∧
      (dir.after plan.effects).format = dir.format ∧
      dir.after plan.effects (dir.after plan.effects).blocksPath =
        some (S.encode dir.format (stored ++ chain.blocks.drop (dir.storedBlockCount S))) := by
  by_cases equal : dir.storedBlockCount S = chain.blockCount
  · refine ⟨⟨[], .ok ()⟩, rfl, ?_, fun _ _ => rfl, rfl, ?_⟩
    · rw [saveArchive, kept, if_neg (by simp), if_pos equal]
      rfl
    · have none : chain.blocks.drop (dir.storedBlockCount S) = [] := by
        rw [List.drop_eq_nil_iff, restorable.length_blocks, equal]
        omega
      rw [none, List.append_nil]
      exact held
  · have written := @Serde.writeBlocks_of_storable S dir.format _
      fun block (member : block ∈ chain.blocks.drop (dir.storedBlockCount S)) =>
        fresh block (List.mem_of_mem_drop member)
    refine ⟨dir.appendBlocks S (chain.blocks.drop (dir.storedBlockCount S)), ?_, ?_, ?_, ?_, ?_⟩
    · rw [appendBlocks_eq, if_pos written]
    · rw [saveArchive, kept, if_neg (by simp), if_neg equal]
    · rw [appendBlocks_eq]
      exact sameBut_withBlocks
    · rw [appendBlocks_eq]
      exact format_withBlocks
    · rw [appendBlocks_eq, after_append, held, Option.getD_some,
        ← Serde.encode_append storable, blocksPath_withBlocks, withBlocks_blocksPath]

/-- The bodies that a start finds behind such a save. -/
theorem blocks_of_archive_kept {stored : List Block} (owner : dir.storedId = some id)
    (journal : dir .recoveryJournal = none)
    (held : dir dir.blocksPath = some (S.encode dir.format stored))
    (restorable : chain.Restorable full) (archive : chain.firstHeight = 0)
    (storable : ∀ block ∈ stored, S.Storable dir.format block)
    (fresh : ∀ block ∈ chain.blocks, S.Storable dir.format block)
    (kept : dir.savesAnew S chain = false)
    (opened : (dir.after (dir.save S draw chain).effects).loadOrNew P S env chain.network =
      (.ok loaded, repaired)) :
    loaded.blocks = (stored ++ chain.blocks.drop (dir.storedBlockCount S)).map
      (Chain.newFair P chain.network).storedForm := by
  have both : ∀ block ∈ stored ++ chain.blocks.drop (dir.storedBlockCount S),
      S.Storable dir.format block := by
    intro block member
    rcases List.mem_append.mp member with here | there
    · exact storable block here
    · exact fresh block (List.mem_of_mem_drop there)
  have plain : chain.isPruned = false := by simp [Chain.isPruned, archive]
  obtain ⟨plan, done, shape, same, format, bodies⟩ :=
    @saveArchive_keeps _ S dir draw _ _ _ held restorable archive storable fresh kept
  rw [save, plain, if_neg Bool.false_ne_true, shape, (after_thenMeta done).2] at opened
  have owned : (dir.after plan.effects).storedId = some id := by
    rw [same.storedId (by simp), owner]
  have settled : dir.after plan.effects .recoveryJournal = none := by
    rw [same _ (by simp), journal]
  exact blocks_behind_meta owned settled (format ▸ bodies) (format ▸ both) opened

/-- The bodies that a start finds behind a save that did not write the block file anew. -/
theorem Committed.blocks_of_kept (committed : Committed S dir id before)
    (restorable : chain.Restorable full)
    (storable : ∀ block ∈ before.blocks, S.Storable dir.format block)
    (fresh : ∀ block ∈ chain.blocks, S.Storable dir.format block)
    (kept : dir.rewrites S chain = false)
    (opened : (dir.after (dir.save S draw chain).effects).loadOrNew P S env chain.network =
      (.ok loaded, repaired)) :
    loaded.blocks = (before.blocks ++
      chain.blocks.drop (dir.storedBlockCount S - chain.firstHeight)).map
        (Chain.newFair P chain.network).storedForm := by
  have both : ∀ block ∈ before.blocks ++
      chain.blocks.drop (dir.storedBlockCount S - chain.firstHeight),
      S.Storable dir.format block := by
    intro block member
    rcases List.mem_append.mp member with here | there
    · exact storable block here
    · exact fresh block (List.mem_of_mem_drop there)
  rcases Nat.eq_zero_or_pos chain.firstHeight with archive | pruned
  · have plain : chain.isPruned = false := by simp [Chain.isPruned, archive]
    rw [rewrites, plain, if_neg Bool.false_ne_true] at kept
    rw [archive, Nat.sub_zero]
    exact blocks_of_archive_kept committed.owner committed.journal committed.bodies restorable
      archive storable fresh kept opened
  · have isPruned : chain.isPruned = true := by simp [Chain.isPruned, pruned]
    obtain ⟨horizon, present⟩ := Option.isSome_iff_exists.mp (restorable.base.pruned pruned)
    rw [rewrites, isPruned, if_pos rfl] at kept
    rw [save, isPruned, if_pos rfl, savePruned_eq] at opened
    by_cases more : dir.storedBlockCount S < chain.blockCount
    · have bodies : dir.saveBodies S chain = dir.appendBlocks S
          (chain.blocks.drop (dir.storedBlockCount S - chain.firstHeight)) := by
        rw [saveBodies, kept, if_neg Bool.false_ne_true, if_pos more]
      have done : (dir.saveBodies S chain).verdict = .ok () := by
        rw [bodies, appendBlocks_eq, if_pos (Serde.writeBlocks_of_storable fun block member =>
          fresh block (List.mem_of_mem_drop member))]
      have unpublished := committed.unpublished storable
        (fun block member => (fresh block member).version) present done (.inr more)
      rw [savedBodies, kept, if_neg Bool.false_ne_true] at unpublished
      have verdict : (dir.prunedFiles S chain).verdict = .ok () := by
        rw [prunedFiles_eq present, done]
      rw [(after_thenMeta verdict).2] at opened
      exact blocks_behind_meta unpublished.owner unpublished.journal unpublished.held
        unpublished.storable opened
    · have bodies : dir.saveBodies S chain = ⟨[], .ok ()⟩ := by
        rw [saveBodies, kept, if_neg Bool.false_ne_true, if_neg more]
      have none : chain.blocks.drop (dir.storedBlockCount S - chain.firstHeight) = [] := by
        rw [List.drop_eq_nil_iff, restorable.length_blocks]
        omega
      have files : dir.prunedFiles S chain =
          ⟨replace (.temporary .headers) .headers (headersText S chain.headers) ++
            replace (.temporary .horizon) .horizon (S.horizonJson (horizonToFile horizon)),
            .ok ()⟩ := by
        rw [prunedFiles_eq present, bodies, List.append_nil]
      have same : SameBut [.temporary .headers, .headers, .temporary .horizon, .horizon] dir
          (dir.after (dir.prunedFiles S chain).effects) := by
        rw [files]
        exact sameBut_after names_sideFiles
      rw [none, List.append_nil]
      rw [(after_thenMeta (by rw [files])).2] at opened
      have owned : (dir.after (dir.prunedFiles S chain).effects).storedId = some id := by
        rw [same.storedId (by simp), committed.owner]
      refine blocks_behind_meta owned ?_ ?_ ?_ opened
      · rw [same _ (by simp), committed.journal]
      · rw [same.blocks (by simp) (by simp), same.format (by simp) (by simp), committed.bodies]
      · rw [same.format (by simp) (by simp)]
        exact storable

/-- A save of a restorable chain with records that fit gets to its end. -/
theorem save_done (restorable : chain.Restorable full)
    (fresh : ∀ block ∈ chain.blocks, S.Storable dir.format block) :
    (dir.save S draw chain).verdict = .ok () := by
  have rewritten : (dir.rewriteBodies S chain).verdict = .ok () :=
    (rewriteBodies_writes (Serde.writeBlocks_of_storable fresh)).1
  have appended (count : Nat) : (dir.appendBlocks S (chain.blocks.drop count)).verdict = .ok () := by
    rw [appendBlocks_eq, if_pos (Serde.writeBlocks_of_storable fun block member =>
      fresh block (List.mem_of_mem_drop member))]
  unfold save
  split_ifs with isPruned
  · have pruned : 0 < chain.firstHeight := by simpa [Chain.isPruned] using isPruned
    obtain ⟨horizon, present⟩ := Option.isSome_iff_exists.mp (restorable.base.pruned pruned)
    have bodies : (dir.saveBodies S chain).verdict = .ok () := by
      unfold saveBodies
      split_ifs
      · exact rewritten
      · exact appended _
      · rfl
    rw [savePruned_eq]
    exact (after_thenMeta (by rw [prunedFiles_eq present, bodies])).1
  · unfold saveArchive
    split_ifs
    · exact (after_thenMeta rewritten).1
    · rfl
    · exact (after_thenMeta (appended _)).1

end Datadir

end Nightfall
