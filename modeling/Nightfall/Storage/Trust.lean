import Nightfall.Storage.Restore

/-!
# Which files a node trusts

`isOwnFileTrusted` as a condition on the directory, what it may leave behind, and the
load: it reads a trusted archive without validating it, and only a load that succeeds may
cut the block file.
-/

namespace Nightfall

open Files

namespace Datadir

/-! ## The installation id -/

/-- A text as the generator makes it: sixteen random bytes in hex. -/
def IsDraw (draw : Bytes) : Prop :=
  ∃ bytes : Bytes, bytes.length = 16 ∧ draw = Hex.encode bytes

theorem isGraphic_hex (bytes : Bytes) : ∀ char ∈ Hex.encode bytes, Utf8.IsGraphic char := by
  intro char member
  obtain ⟨byte, -, digit⟩ := List.mem_flatMap.mp member
  have small := byte.toNat_lt
  have graphic : ∀ value < 16, Utf8.IsGraphic (Hex.digit value) := by
    unfold Utf8.IsGraphic
    decide
  rcases List.mem_pair.mp digit with rfl | rfl
  · exact graphic _ (by omega)
  · exact graphic _ (by omega)

section Ids

variable {dir left : Datadir} {draw : Bytes}

theorem storedId_of_isDraw (isDraw : IsDraw draw) (held : dir .installId = some draw) :
    dir.storedId = some draw := by
  obtain ⟨bytes, length, rfl⟩ := isDraw
  have graphic := isGraphic_hex bytes
  have nonempty : Hex.encode bytes ≠ [] := by
    intro empty
    have := congrArg List.length empty
    rw [Hex.length_encode, length] at this
    contradiction
  simp [storedId, held, Utf8.isValid_of_isGraphic graphic, Utf8.trim_of_isGraphic graphic, nonempty]

theorem storedId_ne_nil {id : Bytes} (held : dir.storedId = some id) : id ≠ [] := by
  simpa using (Option.filter_eq_some_iff.mp held).2

/-- The directory as it was, or with an id made for it. -/
def Settled (dir : Datadir) (draw : Bytes) (left : Datadir) : Prop :=
  left = dir ∨ dir.storedId = none ∧ left = put dir .installId draw

theorem Settled.refl : Settled dir draw dir :=
  .inl rfl

theorem settled_installId : Settled dir draw (dir.after (dir.installId draw).2) := by
  unfold installId
  cases held : dir.storedId with
  | some id => exact .inl rfl
  | none => exact .inr ⟨held, rfl⟩

theorem Settled.file (settled : Settled dir draw left) {name : FileName}
    (other : name ≠ .installId) : left name = dir name := by
  rcases settled with rfl | ⟨-, rfl⟩
  · rfl
  · exact put_of_ne other

theorem Settled.storedId (settled : Settled dir draw left) (isDraw : IsDraw draw) :
    left.storedId = dir.storedId ∨ dir.storedId = none ∧ left.storedId = some draw := by
  rcases settled with rfl | ⟨missing, rfl⟩
  · exact .inl rfl
  · exact .inr ⟨missing, storedId_of_isDraw isDraw put_self⟩

theorem Settled.trans {last : Datadir} (first : Settled dir draw left) (isDraw : IsDraw draw)
    (second : Settled left draw last) : Settled dir draw last := by
  rcases first with rfl | ⟨missing, rfl⟩
  · exact second
  · rcases second with rfl | ⟨absent, -⟩
    · exact .inr ⟨missing, rfl⟩
    · rw [storedId_of_isDraw isDraw put_self] at absent
      contradiction

/-- After asking for the id the directory holds it. -/
theorem storedId_after_installId (isDraw : IsDraw draw) :
    (dir.after (dir.installId draw).2).storedId = some (dir.installId draw).1 := by
  unfold installId
  cases held : dir.storedId with
  | some id => exact held
  | none =>
      apply storedId_of_isDraw isDraw
      change put dir .installId draw .installId = some draw
      exact put_self

theorem installId_of_storedId {id : Bytes} (held : dir.storedId = some id) :
    dir.installId draw = (id, []) := by
  rw [installId, held]

end Ids

/-! ## Trust -/

variable {P : Primitives} {S : Serde}

/-- The metadata names this installation, a tip, and the side files if it needs them. -/
structure OwnRecord (S : Serde) (dir : Datadir) (record : ChainMeta) : Prop where
  read : dir.readMeta S = some record
  tip : record.validatedTip ≠ []
  owner : dir.storedId = some record.validatedBy
  sides : record.pruned = false ∧ record.firstHeight = 0 ∨ dir.sideFilesMatch record = true

/-- The block file has the recorded length. -/
def HasRecordedLength (dir : Datadir) (record : ChainMeta) : Prop :=
  record.validatedBytes = dir.sizeOf dir.blocksPath ∧ dir.sizeOf dir.blocksPath ≠ 0

/-- The files are trusted, whatever the generator would make. -/
def Trusted (S : Serde) (dir : Datadir) : Prop :=
  ∃ record, dir.OwnRecord S record ∧ dir.HasRecordedLength record

section Congruence

variable {dir left : Datadir} {record : ChainMeta} {draw : Bytes}

theorem readMeta_congr (same : left .chainMeta = dir .chainMeta) :
    left.readMeta S = dir.readMeta S := by
  rw [readMeta, readMeta, same]

theorem format_congr (binary : left .blocksBin = dir .blocksBin)
    (json : left .blocksJsonl = dir .blocksJsonl) : left.format = dir.format := by
  rw [format, format, binary, json]

theorem blocksPath_ne {name : FileName} (binary : name ≠ .blocksBin)
    (json : name ≠ .blocksJsonl) : dir.blocksPath ≠ name := by
  unfold blocksPath Format.fileName
  split
  · exact json.symm
  · exact binary.symm

/-- Replacing the block file keeps the format. -/
theorem format_put_blocksPath (content : Bytes) :
    Datadir.format (put dir dir.blocksPath content) = dir.format := by
  unfold Datadir.blocksPath
  by_cases binary : (dir .blocksBin).isSome
  · have format : dir.format = .binary := if_pos binary
    rw [format]
    exact if_pos (by simp [Format.fileName])
  · by_cases json : (dir .blocksJsonl).isSome
    · have format : dir.format = .json := by rw [Datadir.format, if_neg binary, if_pos json]
      rw [format, Datadir.format, if_neg, if_pos]
      · simp [Format.fileName]
      · simpa [Format.fileName] using binary
    · have format : dir.format = .binary := by rw [Datadir.format, if_neg binary, if_neg json]
      rw [format]
      exact if_pos (by simp [Format.fileName])

theorem sideFilesMatch_congr (horizon : left .horizon = dir .horizon)
    (headers : left .headers = dir .headers) :
    left.sideFilesMatch record = dir.sideFilesMatch record := by
  unfold sideFilesMatch sizeOf
  rw [horizon, headers]

theorem Settled.readMeta (settled : Settled dir draw left) :
    left.readMeta S = dir.readMeta S :=
  readMeta_congr (settled.file (by decide))

theorem Settled.format (settled : Settled dir draw left) : left.format = dir.format :=
  format_congr (settled.file (by decide)) (settled.file (by decide))

theorem Settled.blocksPath (settled : Settled dir draw left) :
    left.blocksPath = dir.blocksPath := by
  rw [Datadir.blocksPath, Datadir.blocksPath, settled.format]

theorem Settled.blocks (settled : Settled dir draw left) :
    left left.blocksPath = dir dir.blocksPath := by
  rw [settled.blocksPath]
  exact settled.file (blocksPath_ne (by decide) (by decide))

theorem Settled.sideFilesMatch (settled : Settled dir draw left) :
    left.sideFilesMatch record = dir.sideFilesMatch record :=
  sideFilesMatch_congr (settled.file (by decide)) (settled.file (by decide))

theorem Settled.hasRecordedLength (settled : Settled dir draw left) :
    left.HasRecordedLength record ↔ dir.HasRecordedLength record := by
  unfold HasRecordedLength sizeOf
  rw [settled.blocks]

theorem ownRecord_congr (record' : left .chainMeta = dir .chainMeta)
    (id : left .installId = dir .installId) (horizon : left .horizon = dir .horizon)
    (headers : left .headers = dir .headers) :
    left.OwnRecord S record ↔ dir.OwnRecord S record := by
  have ids : left.storedId = dir.storedId := by rw [storedId, storedId, id]
  constructor
  · rintro ⟨read, tip, owner, sides⟩
    exact ⟨by rwa [← readMeta_congr record'], tip, by rwa [← ids],
      by rwa [← sideFilesMatch_congr horizon headers]⟩
  · rintro ⟨read, tip, owner, sides⟩
    exact ⟨by rwa [readMeta_congr record'], tip, by rwa [ids],
      by rwa [sideFilesMatch_congr horizon headers]⟩

/-- An id that is made now is not the recorded one. -/
theorem Settled.ownRecord (settled : Settled dir draw left) (isDraw : IsDraw draw)
    (fresh : ∀ record, dir.readMeta S = some record → record.validatedBy ≠ draw) :
    left.OwnRecord S record ↔ dir.OwnRecord S record := by
  have ids := settled.storedId isDraw
  constructor
  · rintro ⟨read, tip, owner, sides⟩
    rw [settled.readMeta] at read
    refine ⟨read, tip, ?_, by rwa [settled.sideFilesMatch] at sides⟩
    rcases ids with same | ⟨-, drawn⟩
    · rwa [← same]
    · rw [drawn] at owner
      exact absurd (Option.some.inj owner).symm (fresh record read)
  · rintro ⟨read, tip, owner, sides⟩
    refine ⟨by rwa [settled.readMeta], tip, ?_, by rwa [settled.sideFilesMatch]⟩
    rcases ids with same | ⟨missing, -⟩
    · rwa [same]
    · rw [missing] at owner
      contradiction

theorem Settled.trusted (settled : Settled dir draw left) (isDraw : IsDraw draw)
    (fresh : ∀ record, dir.readMeta S = some record → record.validatedBy ≠ draw) :
    Trusted S left ↔ Trusted S dir := by
  unfold Trusted
  simp only [settled.ownRecord isDraw fresh, settled.hasRecordedLength]

end Congruence

section Trust

variable {dir : Datadir} {draw : Bytes}

theorem settled_isOwnFileTrusted : Settled dir draw (dir.isOwnFileTrusted S draw).2 := by
  unfold isOwnFileTrusted
  cases dir.readMeta S with
  | none => exact .refl
  | some record =>
      simp only
      split_ifs
      all_goals first
        | exact .refl
        | exact settled_installId

theorem isOwnFileTrusted_eq_true : (dir.isOwnFileTrusted S draw).1 = true ↔
    ∃ record, dir.readMeta S = some record ∧ record.validatedTip ≠ [] ∧
      record.validatedBy ≠ [] ∧ record.validatedBy = (dir.installId draw).1 ∧
      dir.HasRecordedLength record ∧
      (record.pruned = false ∧ record.firstHeight = 0 ∨ dir.sideFilesMatch record = true) := by
  have settled : Settled dir draw (dir.after (dir.installId draw).2) := settled_installId
  have sizes : (dir.after (dir.installId draw).2).sizeOf
      (dir.after (dir.installId draw).2).blocksPath = dir.sizeOf dir.blocksPath := by
    unfold sizeOf
    rw [settled.blocks]
  unfold isOwnFileTrusted HasRecordedLength
  cases dir.readMeta S with
  | none => simp
  | some record =>
      simp only [Option.some.injEq, exists_eq_left', sizes, settled.sideFilesMatch]
      split_ifs with tip owner id length plain
      · simp [tip]
      · simp [owner]
      · simp [id]
      · simp only [false_iff, not_and]
        intro _ _ _ ⟨same, nonempty⟩
        rcases length with differs | zero
        · exact absurd same differs
        · exact absurd zero nonempty
      · simp only [not_or, not_not] at length
        simp only [Bool.not_eq_true] at plain
        simp_all
      · simp only [not_or, not_not] at length
        simp only [Bool.not_eq_true] at plain
        simp_all

/-- A directory that lacks an id is not trusted unless the generator repeats the recorded
one. -/
theorem isOwnFileTrusted_iff
    (fresh : ∀ record, dir.readMeta S = some record → record.validatedBy ≠ draw) :
    (dir.isOwnFileTrusted S draw).1 = true ↔ Trusted S dir := by
  rw [isOwnFileTrusted_eq_true]
  constructor
  · rintro ⟨record, read, tip, -, owner, length, sides⟩
    refine ⟨record, ⟨read, tip, ?_, sides⟩, length⟩
    cases held : dir.storedId with
    | some id =>
        rw [installId_of_storedId held] at owner
        rw [owner]
    | none =>
        rw [installId, held] at owner
        exact absurd owner (fresh record read)
  · rintro ⟨record, ⟨read, tip, owner, sides⟩, length⟩
    refine ⟨record, read, tip, storedId_ne_nil owner, ?_, length, sides⟩
    rw [installId_of_storedId owner]

end Trust

/-! ## What a load does -/

section Load

variable {dir : Datadir} {env : LoadEnv} {network : NetworkId} {trusted : Bool} {chain : Chain P}

theorem Settled.loadFiles {left : Datadir} {draw : Bytes} (settled : Settled dir draw left) :
    left.loadFiles P S env network trusted = dir.loadFiles P S env network trusted := by
  have horizon : left .horizon = dir .horizon := settled.file (by decide)
  have headers : left .headers = dir .headers := settled.file (by decide)
  unfold Datadir.loadFiles startOf prunedStart
  simp only [settled.readMeta, settled.format, settled.blocks, horizon, headers]

theorem loadFiles_eq_ok : dir.loadFiles P S env network trusted = .ok chain ↔
    (recordsPruned (dir.readMeta S) = true → trusted = true) ∧
    ∃ start, dir.startOf P S network (dir.readMeta S) = .ok start ∧
    ∃ stored, S.readBlocks dir.format ((dir dir.blocksPath).getD []) = some stored ∧
      replayStored trusted env.now start stored = .ok chain ∧
      (trusted = true → checkRecord (dir.readMeta S) chain = .ok ()) ∧
      chain.verifySupply = .ok () ∧
      (recordsPruned (dir.readMeta S) = true →
        ((dir.readMeta S).map ChainMeta.blockCount).getD 0 > 0 →
          chain.blockCount = ((dir.readMeta S).map ChainMeta.blockCount).getD 0) := by
  unfold loadFiles
  simp only [Guard.bind_eq_ok, Guard.refuse_eq_ok, Guard.need_eq_ok, Guard.mapError_eq_ok,
    Guard.onlyIf_eq_ok, Except.ok.injEq, not_and, not_not, Bool.not_eq_true]
  constructor
  · rintro ⟨_, guarded, start, started, stored, read, last, replayed, _, recorded, _, supply, _,
      count, rfl⟩
    refine ⟨fun pruned => ?_, start, started, stored, read, replayed, recorded, supply, count⟩
    simpa using guarded pruned
  · rintro ⟨guarded, start, started, stored, read, replayed, recorded, supply, count⟩
    refine ⟨(), fun pruned => ?_, start, started, stored, read, chain, replayed, (), recorded, (),
      supply, (), count, rfl⟩
    simpa using guarded pruned

theorem checkRecord_eq_ok {record : ChainMeta} : checkRecord (some record) chain = .ok () ↔
    record.validatedTip = chain.tipHash.toHex ∧ chain.checkTipRoots = .ok () := by
  rw [Chain.checkTipRoots_eq_ok]
  simp only [checkRecord, Guard.bind_eq_ok, Guard.refuse_eq_ok, Option.any_some,
    decide_eq_true_eq, not_not, Bool.not_eq_true]
  cases chain.blocks.getLast? with
  | none => simp
  | some tip => simp

/-- An archive that is read with or without trust. -/
theorem loadFiles_archive {record : ChainMeta} {stored : List Block}
    (recorded : dir.readMeta S = some record) (archive : record.pruned = false)
    (first : record.firstHeight = 0)
    (read : S.readBlocks dir.format ((dir dir.blocksPath).getD []) = some stored)
    (replayed : replayStored trusted env.now (Chain.newFair P network) stored = .ok chain)
    (tip : trusted = true → record.validatedTip = chain.tipHash.toHex)
    (roots : chain.checkTipRoots = .ok ()) (supply : chain.verifySupply = .ok ()) :
    dir.loadFiles P S env network trusted = .ok chain := by
  have notPruned : recordsPruned (some record) = false := by
    simp [recordsPruned, archive, first]
  rw [loadFiles_eq_ok, recorded, notPruned]
  refine ⟨nofun, Chain.newFair P network, ?_, stored, read, replayed, ?_, supply, nofun⟩
  · simp [startOf, notPruned]
  · exact fun trusts => checkRecord_eq_ok.mpr ⟨tip trusts, roots⟩

/-- What the repair of an archive found before it cut the block file. -/
structure Truncates (P : Primitives) (S : Serde) (dir : Datadir) (env : LoadEnv)
    (network : NetworkId) (record : ChainMeta) (content : Bytes) (blocks : List Block) : Prop where
  read : dir.readMeta S = some record
  network : record.network = network
  archive : record.pruned = false
  first : record.firstHeight = 0
  recorded : record.validatedBytes ≠ 0
  tip : record.validatedTip ≠ []
  owner : record.validatedBy = (dir.installId env.draw).1
  held : dir dir.blocksPath = some content
  longer : record.validatedBytes < content.length
  decoded : S.readBlocks dir.format (content.take record.validatedBytes) = some blocks
  verified : prefixMatches P record env.recoverNow blocks = true

/-- The repair leaves the directory alone, or cuts the block file to the recorded length. -/
theorem recoverUncommittedArchiveTail_cases :
    Settled dir env.draw (dir.recoverUncommittedArchiveTail P S env network) ∨
      ∃ record content blocks, Truncates P S dir env network record content blocks ∧
        dir.recoverUncommittedArchiveTail P S env network =
          put (dir.after (dir.installId env.draw).2) dir.blocksPath
            (content.take record.validatedBytes) := by
  have settled : Settled dir env.draw (dir.after (dir.installId env.draw).2) := settled_installId
  have blocks : dir.after (dir.installId env.draw).2 dir.blocksPath = dir dir.blocksPath :=
    settled.file (blocksPath_ne (by decide) (by decide))
  unfold recoverUncommittedArchiveTail
  cases read : dir.readMeta S with
  | none => exact .inl .refl
  | some record =>
      simp only [settled.blocksPath, settled.format, blocks]
      split_ifs with foreign plain owner
      · exact .inl .refl
      · exact .inl .refl
      · exact .inl settled
      · simp only [not_or, not_not, Bool.not_eq_true] at foreign plain owner
        cases held : dir dir.blocksPath with
        | none => exact .inl settled
        | some content =>
            simp only
            split_ifs with short
            · exact .inl settled
            · cases decoded : S.readBlocks dir.format (content.take record.validatedBytes) with
              | none => exact .inl settled
              | some blocks =>
                  simp only
                  split_ifs with verified
                  · exact .inr ⟨record, content, blocks,
                      ⟨read, foreign.1, plain.1, plain.2.1, plain.2.2.1, plain.2.2.2.1, owner, held,
                        Nat.not_le.mp short, decoded, verified⟩, rfl⟩
                  · exact .inl settled

theorem length_le_of_readBlocks {format : Format} {content : Bytes} {blocks : List Block}
    (read : S.readBlocks format content = some blocks) : blocks.length ≤ content.length := by
  cases format with
  | json => exact Records.length_le_of_readLines read
  | binary =>
      rw [Serde.readBlocks] at read
      split at read
      · contradiction
      · exact Records.length_le_of_readFramed read

/-- After a cut the rest of the file is loaded. -/
theorem Truncates.loads {record : ChainMeta} {content : Bytes} {blocks : List Block}
    (truncates : Truncates P S dir env network record content blocks)
    (isDraw : IsDraw env.draw) (fits : content.length < 2 ^ 64) :
    let repaired : Datadir := put (dir.after (dir.installId env.draw).2) dir.blocksPath
      (content.take record.validatedBytes)
    ∃ chain, repaired.loadFiles P S env network (repaired.isOwnFileTrusted S env.draw).1 =
      .ok chain := by
  intro repaired
  have settled : Settled dir env.draw (dir.after (dir.installId env.draw).2) := settled_installId
  have other {name : FileName} (binary : name ≠ .blocksBin) (json : name ≠ .blocksJsonl) :
      repaired name = dir.after (dir.installId env.draw).2 name :=
    put_of_ne (blocksPath_ne binary json).symm
  have read : repaired.readMeta S = some record := by
    rw [readMeta_congr (other (by decide) (by decide)), settled.readMeta, truncates.read]
  have owner : repaired.storedId = some record.validatedBy := by
    unfold Datadir.storedId
    rw [other (by decide) (by decide), truncates.owner]
    exact storedId_after_installId isDraw
  have format : repaired.format = dir.format := by
    change Datadir.format (put _ dir.blocksPath _) = dir.format
    rw [← settled.blocksPath, format_put_blocksPath, settled.format]
  have blocksAre : repaired repaired.blocksPath = some (content.take record.validatedBytes) := by
    rw [Datadir.blocksPath, format]
    exact put_self
  have length : repaired.sizeOf repaired.blocksPath = record.validatedBytes := by
    rw [sizeOf, blocksAre, Option.getD_some, List.length_take_of_le truncates.longer.le]
  have trusted : (repaired.isOwnFileTrusted S env.draw).1 = true := by
    refine isOwnFileTrusted_eq_true.mpr ⟨record, read, truncates.tip, storedId_ne_nil owner, ?_,
      ⟨length.symm, ?_⟩, .inl ⟨truncates.archive, truncates.first⟩⟩
    · rw [installId_of_storedId owner]
    · rw [length]
      exact truncates.recorded
  have verified := truncates.verified
  unfold prefixMatches at verified
  cases reached : Chain.applyAll env.recoverNow (Chain.newFair P record.network) blocks with
  | error error =>
      rw [reached] at verified
      contradiction
  | ok chain =>
      rw [reached] at verified
      simp only [Bool.and_eq_true, decide_eq_true_eq] at verified
      obtain ⟨⟨⟨supply, -⟩, tip⟩, -⟩ := verified
      have short := length_le_of_readBlocks truncates.decoded
      rw [List.length_take_of_le truncates.longer.le] at short
      obtain ⟨last, replayed, same, roots⟩ :=
        Chain.Restorable.replay_of_applyAll reached (by have := truncates.longer; omega) env.now
      have decoded : S.readBlocks repaired.format ((repaired repaired.blocksPath).getD []) =
          some blocks := by
        rw [format, blocksAre, Option.getD_some]
        exact truncates.decoded
      refine ⟨last, loadFiles_archive read truncates.archive truncates.first decoded ?_ ?_ ?_ ?_⟩
      · rw [trusted, ← truncates.network]
        exact replayed
      · intro _
        rw [← tip]
        exact congrArg (fun chain => chain.tipHash.toHex) same.symm
      · exact (congrArg Chain.checkTipRoots same).trans roots
      · exact (congrArg Chain.verifySupply same).trans supply

/-- A load that fails leaves all files alone, and at most makes an id. -/
theorem settled_of_loadOrNew_error (isDraw : IsDraw env.draw)
    (fits : ∀ content, dir dir.blocksPath = some content → content.length < 2 ^ 64)
    {error : LoadError} (failed : (dir.loadOrNew P S env network).1 = .error error) :
    Settled dir env.draw (dir.loadOrNew P S env network).2 := by
  unfold loadOrNew at failed ⊢
  split_ifs with interrupted legacy missing
  · exact .refl
  · exact .refl
  · exact .refl
  · rw [if_neg interrupted, if_neg legacy, if_neg missing] at failed
    cases foreign : (dir.readMeta S).filter fun record => record.network ≠ network with
    | some record => exact .refl
    | none =>
        rw [foreign] at failed
        simp only at failed ⊢
        rcases recoverUncommittedArchiveTail_cases with settled | ⟨record, content, blocks,
          truncates, repaired⟩
        · exact settled.trans isDraw settled_isOwnFileTrusted
        · exfalso
          obtain ⟨chain, loaded⟩ := truncates.loads isDraw (fits content truncates.held)
          rw [← repaired] at loaded
          rw [settled_isOwnFileTrusted.loadFiles, loaded] at failed
          contradiction

end Load

end Datadir

end Nightfall
