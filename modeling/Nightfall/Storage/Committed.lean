import Nightfall.Storage.SideFiles
import Nightfall.Storage.Trust

/-!
# Committed directories

A directory is committed to a chain when its files are the ones that a completed save of
the chain leaves.  A load of it gives the chain back.
-/

namespace Nightfall

open Files

variable {P : Primitives}

/-- A restorable chain whose blocks the format holds, with a block file that is read as
such. -/
structure Chain.Stores (S : Serde) (format : Format) (chain : Chain P) (full : List Block) :
    Prop where
  restorable : chain.Restorable full
  storable : ∀ block ∈ chain.blocks, S.Storable format block
  legible : S.Legible format chain.blocks
  bodies : 0 < chain.firstHeight → chain.blocks ≠ []

namespace Datadir

/-- The files hold the chain, and the metadata describes the files. -/
structure Committed (S : Serde) (dir : Datadir) (id : Bytes) (chain : Chain P) : Prop where
  bodies : dir dir.blocksPath = some (S.encode dir.format chain.blocks)
  record : dir.readMeta S = some (dir.metaOf id chain)
  owner : dir.storedId = some id
  journal : dir .recoveryJournal = none
  headers : 0 < chain.firstHeight → dir .headers = some (headersText S chain.headers)
  horizon : 0 < chain.firstHeight → ∀ horizon, chain.horizon = some horizon →
    dir .horizon = some (S.horizonJson (horizonToFile horizon))

variable {S : Serde} {dir : Datadir} {id draw : Bytes} {env : LoadEnv} {network : NetworkId}

section Loads

variable {record : ChainMeta} {content : Bytes}

theorem after_installId_of_storedId (stored : dir.storedId = some id) :
    dir.after (dir.installId draw).2 = dir := by
  rw [installId_of_storedId stored]
  rfl

/-- A file that is not longer than recorded is not cut. -/
theorem recoverUncommittedArchiveTail_of_le (read : dir.readMeta S = some record)
    (stored : dir.storedId = some id) (held : dir dir.blocksPath = some content)
    (short : content.length ≤ record.validatedBytes) :
    dir.recoverUncommittedArchiveTail P S env network = dir := by
  unfold recoverUncommittedArchiveTail
  simp only [read, after_installId_of_storedId stored, held, short, if_true, ite_self]

theorem isOwnFileTrusted_snd (stored : dir.storedId = some id) :
    (dir.isOwnFileTrusted S draw).2 = dir := by
  unfold isOwnFileTrusted
  cases dir.readMeta S with
  | none => rfl
  | some record => simp only [after_installId_of_storedId stored, apply_ite Prod.snd, ite_self]

/-- A load of a directory of this network, after the repair. -/
theorem loadOrNew_repaired {repaired : Datadir} (journal : dir .recoveryJournal = none)
    (read : dir.readMeta S = some record) (sameNetwork : record.network = network)
    (held : dir dir.blocksPath = some content)
    (repair : dir.recoverUncommittedArchiveTail P S env network = repaired)
    (stored : repaired.storedId = some id) :
    dir.loadOrNew P S env network =
      (repaired.loadFiles P S env network (repaired.isOwnFileTrusted S env.draw).1, repaired) := by
  have known : (dir.readMeta S).filter (fun record => record.network ≠ network) = none := by
    rw [read, Option.filter_eq_none_iff]
    simp [sameNetwork]
  unfold loadOrNew
  rw [interruptedRecovery, journal, held, if_neg (by simp), if_neg (by simp), if_neg (by simp),
    known]
  simp only [repair]
  rw [isOwnFileTrusted_snd stored]

end Loads

section Committed

variable {chain : Chain P} {full : List Block}

theorem Committed.hasRecordedLength (committed : Committed S dir id chain)
    (nonempty : chain.blocks ≠ []) (storable : ∀ block ∈ chain.blocks, S.Storable dir.format block) :
    dir.HasRecordedLength (dir.metaOf id chain) := by
  refine ⟨rfl, ?_⟩
  rw [sizeOf, committed.bodies, Option.getD_some]
  exact (List.length_pos_iff.mpr (Serde.encode_ne_nil storable nonempty)).ne'

/-- The files of a committed archive give the chain back. -/
theorem Committed.loadArchive (committed : Committed S dir id chain)
    (stores : chain.Stores S dir.format full) (archive : chain.firstHeight = 0) :
    ∃ last, dir.loadFiles P S env chain.network (dir.isOwnFileTrusted S env.draw).1 = .ok last ∧
      last.withoutUndos = chain.withoutUndos := by
  obtain ⟨last, replayed, same⟩ := stores.restorable.replayArchive archive env.now
  have read : S.readBlocks dir.format ((dir dir.blocksPath).getD []) = some chain.blocks := by
    rw [committed.bodies, Option.getD_some]
    exact Serde.readBlocks_encode stores.storable stores.legible
  have notPruned : (dir.metaOf id chain).pruned = false := by
    simp [metaOf, Chain.isPruned, archive]
  refine ⟨last, loadFiles_archive committed.record notPruned archive read ?_ ?_ ?_ ?_, same⟩
  · cases trusted : (dir.isOwnFileTrusted S env.draw).1 with
    | true => exact replayed
    | false =>
        have empty : chain.blocks = [] := by
          by_contra nonempty
          have trust : (dir.isOwnFileTrusted S env.draw).1 = true :=
            isOwnFileTrusted_eq_true.mpr ⟨_, committed.record, Bytes32.toHex_ne_nil _,
              storedId_ne_nil committed.owner, (by rw [installId_of_storedId committed.owner]; rfl),
              committed.hasRecordedLength nonempty stores.storable, .inl ⟨notPruned, archive⟩⟩
          rw [trust] at trusted
          contradiction
        rw [empty] at replayed ⊢
        exact replayed
  · exact fun _ => congrArg (fun chain => chain.tipHash.toHex) same.symm
  · exact (congrArg Chain.checkTipRoots same).trans stores.restorable.roots
  · exact (congrArg Chain.verifySupply same).trans stores.restorable.supply

/-- The chain that a pruned load of a committed directory starts from. -/
theorem Committed.prunedStart (committed : Committed S dir id chain)
    (restorable : chain.Restorable full) (pruned : 0 < chain.firstHeight)
    {horizon : LedgerState P} (present : chain.horizon = some horizon) :
    dir.prunedStart P S chain.network (dir.metaOf id chain) = .ok { Chain.newFair P chain.network with
      firstHeight := chain.firstHeight
      horizonWork := chain.horizonWork
      ledger := horizon
      horizon := some horizon
      totalWork := chain.horizonWork
      headers := chain.headers.take chain.firstHeight } := by
  have describes := restorable.holds.follows.describes
  obtain ⟨horizonEq, workEq⟩ := restorable.holds.horizon horizon present
  have fits : (full.take chain.firstHeight).length < 2 ^ 64 :=
    (List.length_take_le' _ _).trans_lt describes.fits
  have tracks : horizon.utxos.Tracks := horizonEq ▸ replay_tracks _ _
  have binding : horizon.bindingHeight = chain.network.bindingForkHeight := by
    rw [horizonEq, replay_bindingHeight]
  have work : Utf8.parseDecimal (2 ^ 128) (Utf8.decimal chain.horizonWork) =
      some chain.horizonWork :=
    Utf8.parseDecimal_decimal (workEq ▸ totalBlockWork_lt fits)
  have file : loadHorizonFile P S (dir .horizon) =
      some (horizon.withBindingHeight NetworkId.mainnet.bindingForkHeight) := by
    rw [committed.horizon pruned horizon present, loadHorizonFile, Option.bind_some,
      S.horizonOfJson_horizonJson, Option.bind_some, ledgerOfHorizon_horizonToFile tracks]
  have restored : (horizon.withBindingHeight NetworkId.mainnet.bindingForkHeight).withBindingHeight
      chain.network.bindingForkHeight = horizon := by
    simp [LedgerState.withBindingHeight, ← binding]
  have count : (chain.headers.take chain.firstHeight).length = chain.firstHeight := by
    rw [List.length_take, describes.headers, List.length_map]
    exact Nat.min_eq_left describes.skip_le
  have headers : loadJsonlHeaders S (dir .headers) = some chain.headers := by
    rw [committed.headers pruned, loadJsonlHeaders_headersText]
  have kept : chain.headers.filter
      (fun header => header.height.toNat < (dir.metaOf id chain).firstHeight) =
        chain.headers.take chain.firstHeight := describes.filter_headers
  have works : Utf8.parseDecimal (2 ^ 128) (dir.metaOf id chain).horizonWork =
      some chain.horizonWork := work
  unfold Datadir.prunedStart
  simp only [Guard.bind_eq_ok, Guard.need_eq_ok, Guard.refuse_eq_ok, Except.ok.injEq, not_not]
  refine ⟨_, file, _, headers, (), ?_, ?_⟩
  · rw [kept]
    exact count
  · rw [kept, restored, works]
    rfl

/-- The files of a committed pruned directory give the chain back. -/
theorem Committed.loadPruned (committed : Committed S dir id chain)
    (stores : chain.Stores S dir.format full) (pruned : 0 < chain.firstHeight) :
    ∃ last, dir.loadFiles P S env chain.network (dir.isOwnFileTrusted S env.draw).1 = .ok last ∧
      last.withoutUndos = chain.withoutUndos := by
  obtain ⟨horizon, present⟩ := Option.isSome_iff_exists.mp (stores.restorable.base.pruned pruned)
  obtain ⟨last, replayed, same⟩ := stores.restorable.replayPruned present env.now
  have describes := stores.restorable.holds.follows.describes
  have read : S.readBlocks dir.format ((dir dir.blocksPath).getD []) = some chain.blocks := by
    rw [committed.bodies, Option.getD_some]
    exact Serde.readBlocks_encode stores.storable stores.legible
  have headers : chain.headers ≠ [] := by
    intro empty
    have count := congrArg List.length describes.headers
    rw [empty, List.length_map, List.length_nil] at count
    have := describes.skip_le
    omega
  have sides : dir.sideFilesMatch (dir.metaOf id chain) = true := by
    have horizonSize : dir.sizeOf .horizon > 0 := by
      rw [sizeOf, committed.horizon pruned horizon present, Option.getD_some]
      exact List.length_pos_iff.mpr (S.horizonJson_ne_nil _)
    have headersSize : dir.sizeOf .headers > 0 := by
      rw [sizeOf, committed.headers pruned, Option.getD_some]
      exact List.length_pos_iff.mpr (headersText_ne_nil headers)
    simp [sideFilesMatch, metaOf, horizonSize, headersSize]
  have trusted : (dir.isOwnFileTrusted S env.draw).1 = true :=
    isOwnFileTrusted_eq_true.mpr ⟨_, committed.record, Bytes32.toHex_ne_nil _,
      storedId_ne_nil committed.owner, (by rw [installId_of_storedId committed.owner]; rfl),
      committed.hasRecordedLength (stores.bodies pruned) stores.storable, .inr sides⟩
  have records : recordsPruned (some (dir.metaOf id chain)) = true := by
    simp [recordsPruned, metaOf, Chain.isPruned, pruned]
  refine ⟨last, loadFiles_eq_ok.mpr ?_, same⟩
  rw [trusted, committed.record]
  refine ⟨fun _ => rfl, _, ?_, chain.blocks, read, replayed, fun _ => ?_, ?_, fun _ _ => ?_⟩
  · rw [startOf, if_pos records]
    exact committed.prunedStart stores.restorable pruned present
  · exact checkRecord_eq_ok.mpr ⟨congrArg (fun chain => chain.tipHash.toHex) same.symm,
      (congrArg Chain.checkTipRoots same).trans stores.restorable.roots⟩
  · exact (congrArg Chain.verifySupply same).trans stores.restorable.supply
  · change last.withoutUndos.blockCount = chain.withoutUndos.blockCount
    rw [same]

/-- A load of a committed directory gives the chain back and leaves the files alone. -/
theorem Committed.load (committed : Committed S dir id chain)
    (stores : chain.Stores S dir.format full) :
    ∃ last, dir.loadOrNew P S env chain.network = (.ok last, dir) ∧
      last.withoutUndos = chain.withoutUndos := by
  have repaired : dir.recoverUncommittedArchiveTail P S env chain.network = dir :=
    recoverUncommittedArchiveTail_of_le committed.record committed.owner committed.bodies
      (by rw [metaOf, sizeOf, committed.bodies]; rfl)
  have sameNetwork : (dir.metaOf id chain).network = chain.network := rfl
  rw [loadOrNew_repaired committed.journal committed.record sameNetwork committed.bodies repaired
    committed.owner]
  rcases Nat.eq_zero_or_pos chain.firstHeight with archive | pruned
  · obtain ⟨last, loaded, same⟩ := committed.loadArchive stores archive
    exact ⟨last, by rw [loaded], same⟩
  · obtain ⟨last, loaded, same⟩ := committed.loadPruned stores pruned
    exact ⟨last, by rw [loaded], same⟩

end Committed

end Datadir

end Nightfall
