import Nightfall.Storage.ArchiveSurvival
import Nightfall.Storage.PrunedCrash

/-!
# Saves of pruned chains

`pruned_save_survives_iff` says which pruned saves survive every interruption: those that
find the tip and the first body of the chain already recorded.
-/

namespace Nightfall

open Files

variable {P : Primitives}

section Described

variable {R : LiveRelation P} {known : Set BlockHeader} {network : NetworkId}
  {chain other : Chain P} {full otherFull : List Block}

theorem Describes.blockCount_eq (describes : Describes chain chain.firstHeight full) :
    chain.blockCount = full.length := by
  have count := describes.skip_le
  rw [Chain.blockCount, describes.headers, describes.blocks]
  split_ifs with some'
  · exact List.length_map _
  · rw [List.length_drop]
    omega

theorem Chain.Holds.tipHash_eq_getLast (holds : chain.Holds R full)
    (nonempty : chain.blocks ≠ []) :
    chain.blocks.getLast?.map (Block.hash P) = some chain.tipHash := by
  have describes := holds.follows.describes
  obtain ⟨front, last, shape⟩ := (List.eq_nil_or_concat chain.blocks).resolve_left nonempty
  have suffix : full = full.take chain.firstHeight ++ (front ++ [last]) := by
    rw [← List.concat_eq_append, ← shape, describes.blocks, List.take_append_drop]
  rw [describes.tipHash_eq, suffix, ← List.append_assoc, tipHashOf_concat, shape]
  simp

theorem Chain.Holds.hashAt_tip (holds : chain.Holds R full) (pruned : 0 < chain.firstHeight) :
    chain.hashAt (chain.blockCount - 1) = some chain.tipHash := by
  have describes := holds.follows.describes
  have nonempty : full ≠ [] := by
    rintro rfl
    exact pruned.ne' (Nat.le_zero.mp describes.skip_le)
  obtain ⟨front, last, shape⟩ := (List.eq_nil_or_concat full).resolve_left nonempty
  rw [describes.hashAt_eq, describes.blockCount_eq, describes.tipHash_eq, shape]
  simp [tipHashOf]

/-- The versions of the kept bodies. -/
theorem Chain.Holds.versions (holds : chain.Holds R full) :
    ∀ block ∈ chain.blocks, block.header.version = protocolVersion := by
  have describes := holds.follows.describes
  intro block member
  rw [describes.blocks] at member
  exact describes.linked.forall_mem (fun _ _ links => links.version) block
    (List.mem_of_mem_drop member)

/-- The first kept body has the height that the chain records. -/
theorem Chain.Holds.height_first (holds : chain.Holds R full) {first : Block} {rest : List Block}
    (shape : chain.blocks = first :: rest) : first.header.height.toNat = chain.firstHeight := by
  have describes := holds.follows.describes
  have present : full[chain.firstHeight]? = some first := by
    have here : (full.drop chain.firstHeight)[0]? = some first := by
      rw [← describes.blocks, shape]
      rfl
    rwa [List.getElem?_drop, Nat.add_zero] at here
  rw [(describes.linked.at_index present).height, List.length_take]
  exact Nat.min_eq_left describes.skip_le

/-- The compact form reads the header only. -/
theorem compact_eq_of_headers {left right : List Block}
    (same : left.map Block.header = right.map Block.header) :
    left.map (CompactHeader.fromBlock P) = right.map (CompactHeader.fromBlock P) := by
  let compact (header : BlockHeader) : CompactHeader :=
    ⟨header.height, header.hash P, header.prevHash, header.timestampUnix, header.difficulty⟩
  have reads : CompactHeader.fromBlock P = compact ∘ Block.header := rfl
  rw [reads, ← List.map_map, same, List.map_map]

/-- Chains with one tip have the same headers. -/
theorem Node.Holds.headers_eq_of_tipHash_eq {node next : Node P}
    (collisionFree : Set.InjOn (BlockHeader.hash P) known)
    (holds : node.Holds R known network full) (holdsNext : next.Holds R known network otherFull)
    (nonempty : full ≠ []) (nonemptyNext : otherFull ≠ [])
    (tips : next.chain.tipHash = node.chain.tipHash) :
    otherFull.map Block.header = full.map Block.header := by
  have describes := holds.chain.follows.describes
  have describesNext := holdsNext.chain.follows.describes
  have linked := describes.linked
  have linkedNext := describesNext.linked
  rw [describes.tipHash_eq, describesNext.tipHash_eq] at tips
  rw [holds.sameNetwork] at linked tips
  rw [holdsNext.sameNetwork] at linkedNext tips
  exact Nightfall.headers_eq_of_tipHash_eq collisionFree linkedNext linked holdsNext.headersKnown
    holds.headersKnown nonemptyNext nonempty tips

end Described

namespace Datadir

variable {S : Serde} {dir left : Datadir} {id draw content : Bytes} {env : LoadEnv}
  {network : NetworkId} {old new chain : Chain P} {name : FileName}

/-! ## Loads that read the same files -/

theorem loadFiles_congr {trusted : Bool} (record : left.readMeta S = dir.readMeta S)
    (format : left.format = dir.format) (bodies : left left.blocksPath = dir dir.blocksPath)
    (headers : left .headers = dir .headers) (horizon : left .horizon = dir .horizon) :
    left.loadFiles P S env network trusted = dir.loadFiles P S env network trusted := by
  have start : left.startOf P S network (dir.readMeta S) =
      dir.startOf P S network (dir.readMeta S) := by
    unfold startOf prunedStart
    rw [headers, horizon]
  simp only [loadFiles, record, start, format, bodies]

theorem isOwnFileTrusted_congr (record : left.readMeta S = dir.readMeta S)
    (owner : dir.storedId = some id) (sameOwner : left.storedId = some id)
    (bodies : left left.blocksPath = dir dir.blocksPath)
    (headers : left .headers = dir .headers) (horizon : left .horizon = dir .horizon) :
    (left.isOwnFileTrusted S draw).1 = (dir.isOwnFileTrusted S draw).1 := by
  have sides (record : ChainMeta) : left.sideFilesMatch record = dir.sideFilesMatch record := by
    unfold sideFilesMatch sizeOf
    rw [headers, horizon]
  have unchanged (files : Datadir) : files.after [] = files := rfl
  unfold isOwnFileTrusted
  rw [record]
  cases dir.readMeta S with
  | none => rfl
  | some found =>
      simp only [installId_of_storedId owner, installId_of_storedId sameOwner, unchanged, sides,
        sizeOf, bodies, apply_ite Prod.fst]

/-- Directories that are committed to one pruned chain load alike. -/
theorem Committed.loadOrNew_congr (committed : Committed S dir id chain)
    (other : Committed S left id chain) (format : left.format = dir.format)
    (pruned : 0 < chain.firstHeight) {horizon : LedgerState P}
    (present : chain.horizon = some horizon) :
    (left.loadOrNew P S env chain.network).1 = (dir.loadOrNew P S env chain.network).1 := by
  have bodies : left left.blocksPath = dir dir.blocksPath := by
    rw [committed.bodies, other.bodies, format]
  have headers : left .headers = dir .headers := by
    rw [committed.headers pruned, other.headers pruned]
  have horizons : left .horizon = dir .horizon := by
    rw [committed.horizon pruned horizon present, other.horizon pruned horizon present]
  have record : left.readMeta S = dir.readMeta S := by
    rw [committed.record, other.record, metaOf, metaOf, sizeOf, sizeOf, sizeOf, sizeOf, sizeOf,
      sizeOf, bodies, headers, horizons]
  have sameNetwork {files : Datadir} : (files.metaOf id chain).network = chain.network := rfl
  have kept {files : Datadir} (held : Committed S files id chain) :
      files.recoverUncommittedArchiveTail P S env chain.network = files :=
    recoverUncommittedArchiveTail_of_le held.record held.owner held.bodies
      (by rw [metaOf, sizeOf, held.bodies]; rfl)
  rw [loadOrNew_repaired committed.journal committed.record sameNetwork committed.bodies
      (kept committed) committed.owner,
    loadOrNew_repaired other.journal other.record sameNetwork other.bodies (kept other) other.owner,
    isOwnFileTrusted_congr record committed.owner other.owner bodies headers horizons]
  exact loadFiles_congr record format bodies headers horizons

/-! ## Survival -/

/-- A completed save has committed the directory to the chain, and every start gets the chain
back from it. -/
structure Carries (S : Serde) (dir : Datadir) (id : Bytes) (chain : Chain P) : Prop where
  committed : Committed S dir id chain
  written : (S.writeBlocks dir.format chain.blocks).2 = true
  loads : ∀ env : LoadEnv, ∃ loaded repaired,
    dir.loadOrNew P S env chain.network = (.ok loaded, repaired) ∧
      loaded.withoutUndos = chain.withoutUndos

/-- However the save of `after` is interrupted, every next start loads one of the two
chains. -/
def SaveSurvives (S : Serde) (draw : Bytes) (dir : Datadir) (before after : Chain P) : Prop :=
  ∀ left : Datadir, Interrupted dir (dir.save S draw after).effects left → ∀ env : LoadEnv,
    ∃ loaded repaired, left.loadOrNew P S env before.network = (.ok loaded, repaired) ∧
      (loaded.withoutUndos = before.withoutUndos ∨ loaded.withoutUndos = after.withoutUndos)

theorem Committed.carries {full : List Block} (committed : Committed S dir id chain)
    (stores : chain.Stores S dir.format full) : Carries S dir id chain where
  committed := committed
  written := Serde.writeBlocks_of_storable stores.storable
  loads := fun env => by
    obtain ⟨last, loaded, same⟩ := @Committed.load P S dir id env chain full committed stores
    exact ⟨last, dir, loaded, same⟩

/-- Everything that a save writes beside the bodies is the same for the two chains. -/
structure SameRecords (old new : Chain P) : Prop where
  network : new.network = old.network
  firstHeight : new.firstHeight = old.firstHeight
  headers : new.headers = old.headers
  horizon : new.horizon = old.horizon
  horizonWork : new.horizonWork = old.horizonWork
  blockCount : new.blockCount = old.blockCount
  tipHash : new.tipHash = old.tipHash

theorem SameRecords.metaOf (same : SameRecords old new) :
    dir.metaOf id new = dir.metaOf id old := by
  simp only [Datadir.metaOf, Chain.isPruned, same.network, same.firstHeight, same.horizonWork,
    same.blockCount, same.tipHash]

theorem SameRecords.writeMeta (same : SameRecords old new) :
    dir.writeMeta S draw new = dir.writeMeta S draw old := by
  simp only [Datadir.writeMeta, same.metaOf]

/-- A file that is replaced by itself. -/
theorem interrupted_replace_same (differs : name ≠ .temporary name)
    (temporary : .temporary name ∈ scratch) (held : dir name = some content)
    (interrupted : Interrupted dir (replace (.temporary name) name content) left) :
    SameBut scratch dir left := by
  have unchanged : put dir name content = dir := by
    rw [put, ← held, Function.update_eq_self]
  have same : SameBut [.temporary name] dir left := by
    rcases interrupted_replace_cases differs interrupted with same | same
    · exact same
    · rwa [unchanged] at same
  exact same.mono (by simpa using temporary)

/-- The bodies of a chain whose tip and first body are recorded are left alone. -/
theorem Committed.saveBodies_recorded (committed : Committed S dir id old)
    (same : SameRecords old new) (tip : new.hashAt (old.blockCount - 1) = some old.tipHash) :
    dir.saveBodies S new = ⟨[], .ok ()⟩ := by
  have kept : dir.savesBodiesAnew S new = false := by
    simp [savesBodiesAnew, committed.record, committed.bodies, Datadir.metaOf, same.firstHeight,
      same.blockCount, tip]
  have stored : dir.storedBlockCount S = new.blockCount := by
    rw [storedBlockCount, committed.record, same.blockCount]
    rfl
  rw [saveBodies, kept, if_neg Bool.false_ne_true, stored, if_neg (Nat.lt_irrefl _)]

/-- A save that writes what is recorded already survives every interruption. -/
theorem Carries.saveSurvives (carries : Carries S dir id old) (isDraw : IsDraw draw)
    (same : SameRecords old new) (pruned : 0 < new.firstHeight) {horizon : LedgerState P}
    (present : old.horizon = some horizon)
    (tip : new.hashAt (old.blockCount - 1) = some old.tipHash) :
    SaveSurvives S draw dir old new := by
  have committed := carries.committed
  have oldPruned : 0 < old.firstHeight := same.firstHeight ▸ pruned
  have written : dir.prunedFiles S new =
      ⟨replace (.temporary .headers) .headers (headersText S old.headers) ++
        replace (.temporary .horizon) .horizon (S.horizonJson (horizonToFile horizon)),
        .ok ()⟩ := by
    rw [prunedFiles_eq (same.horizon.trans present), committed.saveBodies_recorded same tip,
      List.append_nil, same.headers]
  have idle {files : Datadir}
      (interrupted : Interrupted dir (dir.prunedFiles S new).effects files) :
      SameBut scratch dir files := by
    rw [written] at interrupted
    rcases interrupted_append.mp interrupted with first | second
    · exact interrupted_replace_same (by simp) (by simp [scratch])
        (committed.headers oldPruned) first
    · have before := interrupted_replace_same (by simp) (by simp [scratch])
        (committed.headers oldPruned) (Interrupted.whole _ _)
      exact before.join (interrupted_replace_same (by simp) (by simp [scratch])
        ((before _ (by simp [scratch])).trans (committed.horizon oldPruned horizon present)) second)
  have mid : Committed S (dir.after (dir.prunedFiles S new).effects) id old :=
    committed_unless_scratch committed (idle (Interrupted.whole _ _))
  intro left interrupted env
  have format := format_interrupted_save interrupted
  have there : Committed S left id old := by
    have isPruned : new.isPruned = true := by simp [Chain.isPruned, pruned]
    rw [save, if_pos isPruned, savePruned_eq] at interrupted
    rcases interrupted_thenMeta mid.owner interrupted with body | ⟨done, after | after⟩
    · exact committed_unless_scratch committed (idle body)
    · exact committed_unless_scratch mid after
    · rw [(after_thenMeta done).2, same.writeMeta] at after
      have published := @committed_writeMeta P S (dir.after (dir.prunedFiles S new).effects) draw
        old isDraw mid.bodies mid.journal mid.headers mid.horizon
      rw [installId_of_storedId mid.owner] at published
      exact committed_unless_scratch published after
  obtain ⟨loaded, repaired, opened, back⟩ := carries.loads env
  have alike : (left.loadOrNew P S env old.network).1 = (dir.loadOrNew P S env old.network).1 :=
    committed.loadOrNew_congr there format oldPruned present
  rw [opened] at alike
  exact ⟨loaded, (left.loadOrNew P S env old.network).2, Prod.ext alike rfl, .inl back⟩

/-! ## The saves that are not survived -/

section Lost

variable {R : LiveRelation P} {oldFull newFull : List Block}

theorem save_of_pruned (pruned : 0 < new.firstHeight) :
    dir.save S draw new = dir.thenMeta S draw new (dir.prunedFiles S new) := by
  rw [save, if_pos (by simp [Chain.isPruned, pruned]), savePruned_eq]

/-- A completed save wrote the bodies, and it may have stopped behind them. -/
theorem interrupted_before_meta (pruned : 0 < new.firstHeight) {horizon : LedgerState P}
    (present : new.horizon = some horizon) (done : (dir.save S draw new).verdict = .ok ()) :
    (dir.saveBodies S new).verdict = .ok () ∧
      Interrupted dir (dir.save S draw new).effects
        (dir.after (dir.prunedFiles S new).effects) := by
  have verdict : (dir.prunedFiles S new).verdict = .ok () := by
    rw [save_of_pruned pruned, thenMeta, SavePlan.andThen] at done
    split at done
    next finished => exact finished
    next => cases done
  constructor
  · rw [← verdict, prunedFiles_eq present]
  · rw [save_of_pruned pruned, thenMeta, SavePlan.andThen_of_ok verdict]
    exact (Interrupted.whole _ _).append_left

/-- The last of the bodies that a save leaves is the tip. -/
theorem getLast_savedBodies (holds : new.Holds R newFull) (nonempty : new.blocks ≠ [])
    (writes : dir.savesBodiesAnew S new = true ∨ dir.storedBlockCount S < new.blockCount) :
    (dir.savedBodies S old new).getLast?.map (Block.hash P) = some new.tipHash := by
  rw [← holds.tipHash_eq_getLast nonempty]
  unfold savedBodies
  split
  · rfl
  next kept =>
    have describes := holds.follows.describes
    have more := writes.resolve_left kept
    have inside : dir.storedBlockCount S - new.firstHeight < new.blocks.length := by
      rw [describes.blockCount_eq] at more
      rw [describes.blocks, List.length_drop]
      have := List.length_pos_iff.mpr nonempty
      rw [describes.blocks, List.length_drop] at this
      omega
    have some' : new.blocks.drop (dir.storedBlockCount S - new.firstHeight) ≠ [] := by
      apply List.ne_nil_of_length_pos
      rw [List.length_drop]
      omega
    rw [List.getLast?_append_of_ne_nil _ some', List.getLast?_drop, if_neg (by omega)]

/-- A pruned save that survives every interruption writes nothing new. -/
theorem Carries.recorded_of_saveSurvives (carries : Carries S dir id old)
    (oldHolds : old.Holds R oldFull) (newHolds : new.Holds R newFull)
    (nonempty : new.blocks ≠ []) (pruned : 0 < new.firstHeight) {horizon : LedgerState P}
    (present : new.horizon = some horizon)
    (counts : 0 < old.firstHeight → new.tipHash = old.tipHash → new.blockCount = old.blockCount)
    (done : (dir.save S draw new).verdict = .ok ()) (survives : SaveSurvives S draw dir old new) :
    new.firstHeight = old.firstHeight ∧ new.tipHash = old.tipHash := by
  have committed := carries.committed
  obtain ⟨bodies, stopped⟩ := interrupted_before_meta pruned present done
  have record : ((dir.readMeta S).map ChainMeta.firstHeight).getD 0 = old.firstHeight ∧
      dir.storedBlockCount S = old.blockCount := by
    rw [storedBlockCount, committed.record]
    exact ⟨rfl, rfl⟩
  have keptFirst (kept : ¬dir.savesBodiesAnew S new = true) :
      new.firstHeight = old.firstHeight := by
    by_contra moved
    refine kept ?_
    simp [savesBodiesAnew, record.1, Ne.symm moved]
  by_cases writes : dir.savesBodiesAnew S new = true ∨ dir.storedBlockCount S < new.blockCount
  · have unpublished := committed.unpublished
      (Serde.storable_of_writeBlocks carries.written oldHolds.versions) newHolds.versions present
      bodies writes
    obtain ⟨loaded, repaired, opened, -⟩ := survives _ stopped ⟨0, 0, []⟩
    have last := @getLast_savedBodies P S dir old new R newFull newHolds nonempty writes
    rcases Nat.eq_zero_or_pos old.firstHeight with archive | oldPruned
    · exfalso
      have anew : dir.savesBodiesAnew S new = true := by
        by_contra kept
        have := keptFirst kept
        omega
      obtain ⟨first, rest, shape⟩ := List.exists_cons_of_ne_nil nonempty
      have height := newHolds.height_first shape
      refine unpublished.archive committed ?_ archive (by rw [savedBodies, if_pos anew, shape]) ?_
        opened
      · intro none
        rw [oldHolds.follows.describes.blockCount_eq] at none
        rw [oldHolds.follows.describes.blocks, List.length_eq_zero_iff.mp none, List.drop_nil]
      · intro zero
        rw [zero] at height
        simp only [UInt64.toNat_zero] at height
        omega
    · have counted : 0 < old.blockCount := by
        rw [oldHolds.follows.describes.blockCount_eq]
        exact oldPruned.trans_le oldHolds.follows.describes.skip_le
      have some' : dir.savedBodies S old new ≠ [] := by
        intro empty
        rw [empty] at last
        cases last
      obtain ⟨tip, length⟩ := unpublished.pruned oldPruned some' counted opened
      have tips : new.tipHash = old.tipHash := Option.some.inj (last.symm.trans tip)
      refine ⟨?_, tips⟩
      by_cases kept : dir.savesBodiesAnew S new = true
      · rw [savedBodies, if_pos kept, newHolds.follows.describes.blocks, List.length_drop,
          ← newHolds.follows.describes.blockCount_eq, counts oldPruned tips] at length
        have some' := List.length_pos_iff.mpr nonempty
        rw [newHolds.follows.describes.blocks, List.length_drop,
          ← newHolds.follows.describes.blockCount_eq, counts oldPruned tips] at some'
        omega
      · exact keptFirst kept
  · rw [not_or] at writes
    obtain ⟨kept, noMore⟩ := writes
    have first := keptFirst kept
    refine ⟨first, ?_⟩
    simp only [savesBodiesAnew, committed.record, Option.map_some, Option.getD_some,
      Bool.or_eq_true, decide_eq_true_eq, not_or, Bool.not_eq_true', Bool.not_eq_false, metaOf]
      at kept
    obtain ⟨⟨-, short⟩, tip⟩ := kept
    have count : old.blockCount = new.blockCount := by
      rw [record.2] at noMore
      omega
    have counted : old.blockCount ≠ 0 := by
      rw [count, newHolds.follows.describes.blockCount_eq]
      exact (pruned.trans_le newHolds.follows.describes.skip_le).ne'
    have same := tip.resolve_left counted
    rw [count, newHolds.hashAt_tip pruned, Option.any_some, decide_eq_true_eq] at same
    exact Bytes32.toHex_injective same

end Lost

/-! ## Nodes -/

/-- A completed save of a pruned node over a committed directory survives every interruption
exactly when the node has the tip and the first body that the directory records; and one
that finds them there survives in any case. -/
theorem pruned_save_survives_iff {before more : List Op}
    (collisionFree : CollisionFree P (before ++ more))
    (fits : FitsAlong (P := P) network (before ++ more)) (isDraw : IsDraw draw)
    (pruned : 0 < ((Node.start P network).run (before ++ more)).chain.firstHeight)
    (carries : Carries S dir id ((Node.start P network).run before).chain) :
    let old := ((Node.start P network).run before).chain
    let new := ((Node.start P network).run (before ++ more)).chain
    let recorded := new.firstHeight = old.firstHeight ∧ new.tipHash = old.tipHash
    (recorded → SaveSurvives S draw dir old new) ∧
      ((dir.save S draw new).verdict = .ok () →
        (SaveSurvives S draw dir old new ↔ recorded)) := by
  intro old new recorded
  obtain ⟨⟨oldFull, oldHolds⟩, ⟨newFull, newHolds⟩, keeps, advances⟩ :=
    Node.baseAdvances_run collisionFree fits
  have injective : Set.InjOn (BlockHeader.hash P) (offeredHeaders (before ++ more)) :=
    collisionFree.hash_injOn
  have oldDescribes := oldHolds.chain.follows.describes
  have newDescribes := newHolds.chain.follows.describes
  have networks : new.network = old.network :=
    newHolds.sameNetwork.trans oldHolds.sameNetwork.symm
  have present {chain : Chain P} {full : List Block} (holds : chain.Holds (belowRelation P) full)
      (dropped : 0 < chain.firstHeight) : ∃ horizon, chain.horizon = some horizon := by
    rw [← Option.isSome_iff_exists, Option.isSome_iff_ne_none]
    exact fun none => dropped.ne' (holds.archive none)
  have inhabited {chain : Chain P} {full : List Block}
      (describes : Describes chain chain.firstHeight full) (dropped : 0 < chain.firstHeight) :
      full ≠ [] := by
    rintro rfl
    exact dropped.ne' (Nat.le_zero.mp describes.skip_le)
  have headers (dropped : 0 < old.firstHeight) (tips : new.tipHash = old.tipHash) :
      newFull.map Block.header = oldFull.map Block.header :=
    oldHolds.headers_eq_of_tipHash_eq injective newHolds (inhabited oldDescribes dropped)
      (inhabited newDescribes pruned) tips
  have counts (dropped : 0 < old.firstHeight) (tips : new.tipHash = old.tipHash) :
      new.blockCount = old.blockCount := by
    rw [newDescribes.blockCount_eq, oldDescribes.blockCount_eq, ← List.length_map Block.header,
      headers dropped tips, List.length_map]
  have survives (found : recorded) : SaveSurvives S draw dir old new := by
    obtain ⟨first, tips⟩ := found
    have dropped : 0 < old.firstHeight := first ▸ pruned
    obtain ⟨horizon, held⟩ := present oldHolds.chain dropped
    have base := advances.sameBase first
    have same : SameRecords old new := by
      refine ⟨networks, first, ?_, base.horizon, base.horizonWork, counts dropped tips, tips⟩
      rw [newDescribes.headers, oldDescribes.headers]
      exact compact_eq_of_headers (headers dropped tips)
    refine carries.saveSurvives isDraw same pruned held ?_
    rw [← counts dropped tips, ← tips]
    exact newHolds.chain.hashAt_tip pruned
  refine ⟨survives, fun done => ⟨fun survived => ?_, survives⟩⟩
  obtain ⟨horizon, held⟩ := present newHolds.chain pruned
  exact carries.recorded_of_saveSurvives oldHolds.chain newHolds.chain (keeps.body pruned) pruned
    held counts done survived

section Sample

open Sample

/-- Our first two blocks, of which the first is dropped. -/
def prunedOps : List Op :=
  minedOps ++ [.pruneKeep 1]

theorem step_applyBlock {node : Node P} {block : Block} {nowUnix : UInt64} :
    (node.step (.applyBlock block nowUnix)).chain = (node.chain.applyBlock block nowUnix).2 :=
  rfl

theorem step_pruneKeep {node : Node P} {keep : Nat} :
    (node.step (.pruneKeep keep)).chain = (node.chain.pruneKeep keep).2 :=
  rfl

theorem run_minedOps : ((Node.start primitives .devnet).run minedOps).chain = chain2 := by
  simp only [minedOps, Node.run, GuardedRun.run_cons, GuardedRun.run_nil, step_applyBlock]
  simp only [Node.start, chain2, chain1, grow, block0, block1]

theorem run_prunedOps :
    ((Node.start primitives .devnet).run prunedOps).chain = (chain2.pruneKeep 1).2 := by
  rw [prunedOps, Node.run, GuardedRun.run_append, ← run_minedOps]
  simp only [GuardedRun.run_cons, GuardedRun.run_nil, step_pruneKeep]
  rfl

theorem restorable_chain2 : ∃ full, chain2.Restorable full :=
  ⟨_, ((Chain.restorable_newFair .devnet).applyAll reached_chain2 (by simp)).1⟩

theorem blocks_pruned : (chain2.pruneKeep 1).2.blocks = [block1] ∧
    (chain2.pruneKeep 1).2.firstHeight = 1 := by
  decide +kernel

/-- The first save of a chain carries it. -/
theorem carries_savedDir {chain : Chain primitives} {full : List Block}
    (restorable : chain.Restorable full)
    (inside : chain.blocks ⊆ [block0, block1, altered1, block2, block3])
    (bodies : 0 < chain.firstHeight → chain.blocks ≠ []) :
    Carries serde (savedDir chain) installation chain := by
  have anew : Datadir.rewrites serde (fun _ => none) chain = true := by
    unfold rewrites
    split_ifs <;> simp [savesAnew, savesBodiesAnew]
  have saved := @save_commits primitives serde (fun _ => none) installation chain full
    installation_isDraw rfl restorable (fun block member => storable _ (inside member))
    (fun kept => absurd (anew.symm.trans kept) (by simp))
  exact saved.2.carries
    ⟨restorable, fun block member => storable _ (inside member), legible _ inside, bodies⟩

/-- A save of a pruned node that has nothing new survives every interruption. -/
theorem pruned_save_survives_again :
    SaveSurvives serde installation
      (savedDir ((Node.start primitives .devnet).run prunedOps).chain)
      ((Node.start primitives .devnet).run prunedOps).chain
      ((Node.start primitives .devnet).run (prunedOps ++ [.pruneKeep 1])).chain := by
  obtain ⟨full, restorable⟩ := restorable_chain2
  have carries : Carries serde (savedDir ((Node.start primitives .devnet).run prunedOps).chain)
      installation ((Node.start primitives .devnet).run prunedOps).chain := by
    rw [run_prunedOps]
    exact carries_savedDir (restorable.pruneKeep 1) (by simp [blocks_pruned.1])
      (by simp [blocks_pruned.1])
  exact (pruned_save_survives_iff (by decide +kernel) (by decide +kernel) installation_isDraw
    (by decide +kernel) carries).1 (by decide +kernel)

/-- The first pruned save of an archive may stop before its metadata, and then no start
accepts the files. -/
theorem pruning_save_lost : Carries serde (savedDir chain2) installation chain2 ∧
    ¬SaveSurvives serde installation (savedDir chain2) chain2 (chain2.pruneKeep 1).2 := by
  obtain ⟨full, restorable⟩ := restorable_chain2
  obtain ⟨bodies, first⟩ := blocks_pruned
  have pruned := restorable.pruneKeep 1
  have held : chain2.blocks = [block0, block1] := sample_accepted.2.2.2
  have archive : chain2.firstHeight = 0 := verified_chain2.archive
  have carries : Carries serde (savedDir chain2) installation chain2 :=
    carries_savedDir restorable (by simp [held]) (by simp [held])
  refine ⟨carries, fun survives => ?_⟩
  have isPruned : 0 < (chain2.pruneKeep 1).2.firstHeight := by simp [first]
  obtain ⟨horizon, present⟩ := Option.isSome_iff_exists.mp (pruned.base.pruned isPruned)
  have anew : (savedDir chain2).rewrites serde (chain2.pruneKeep 1).2 = true := by
    simp [rewrites, Chain.isPruned, savesBodiesAnew, carries.committed.record, metaOf,
      archive, first]
  have done := (@save_commits primitives serde (savedDir chain2) installation
    (chain2.pruneKeep 1).2 full installation_isDraw carries.committed.journal pruned
    (fun block member => storable _ (by simp_all))
    (fun kept => absurd (anew.symm.trans kept) (by simp))).1
  have recorded := carries.recorded_of_saveSurvives restorable.holds pruned.holds (by simp [bodies])
    isPruned present (fun absurd => by omega) done survives
  omega

end Sample

end Datadir

end Nightfall
