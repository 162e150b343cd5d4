import Nightfall.Library.GuardedRun
import Nightfall.Storage.Sample

/-!
# Converting and exporting the chain file

`migrateToBinary` converts a JSON chain file and then records the length of the new file
in whatever metadata it finds.  `exportSnapshot` only reads.  Over any sequence of these
and of loads that fail, a directory becomes trusted exactly when a conversion succeeds
beside metadata of this installation.
-/

namespace Nightfall

open Files

variable {P : Primitives}

/-! ## The operations -/

/-- The name of a format in a snapshot manifest: `json` or `binary`. -/
def Format.name : Format → Bytes
  | json => [106, 115, 111, 110]
  | binary => [98, 105, 110, 97, 114, 121]

inductive MigrateError where
  | interruptedRecovery
  | alreadyBinary
  | noChainFile
  | corruptBlocks
  | emptyChain
  | recordTooLarge
  | unreadable
  | blockCount (converted source : Nat)
  | blockDiffers (index : Nat)
  deriving DecidableEq

/-- What a conversion does to the directory, and the old and new sizes in bytes. -/
structure MigratePlan where
  effects : List (Effect FileName)
  verdict : Except MigrateError (Nat × Nat)

variable (P) in
/-- The first block whose hash is not the one of the source. -/
def firstDifference (source converted : List Block) : Option Nat :=
  (source.zip converted).findIdx? fun (old, new) => old.hash P ≠ new.hash P

inductive ExportError where
  | interruptedRecovery
  | pruned
  | noChainFile
  | noMeta
  deriving DecidableEq

/-- The record with another length of the block file. -/
def ChainMeta.withLength (record : ChainMeta) (length : Nat) : ChainMeta :=
  { record with validatedBytes := length }

namespace Datadir

variable (S : Serde) (dir : Datadir)

/-- Write the length of the converted file into the metadata. -/
def recordLength (length : Nat) : List (Effect FileName) :=
  match dir.readMeta S with
  | none => []
  | some record =>
      replace (.temporary .chainMeta) .chainMeta (S.metaJson (record.withLength length))

variable (P) in
/-- Rewrite the chain file in the binary encoding, after reading it back. -/
def migrateToBinary : MigratePlan :=
  if dir.interruptedRecovery then ⟨[], .error .interruptedRecovery⟩
  else if dir.format = .binary then ⟨[], .error .alreadyBinary⟩
  else
    match dir .blocksJsonl with
    | none => ⟨[], .error .noChainFile⟩
    | some source =>
        match S.readBlocks .json source with
        | none => ⟨[], .error .corruptBlocks⟩
        | some blocks =>
            if blocks = [] then ⟨[], .error .emptyChain⟩
            else
              let temporary := FileName.temporary .blocksBin
              let (content, done) := S.writeBlocks .binary blocks
              if ¬done then ⟨[.write temporary content], .error .recordTooLarge⟩
              else
                match S.readBlocks .binary content with
                | none => ⟨[.write temporary content], .error .unreadable⟩
                | some converted =>
                    if converted.length ≠ blocks.length then
                      ⟨[.write temporary content, .remove temporary],
                        .error (.blockCount converted.length blocks.length)⟩
                    else
                      match firstDifference P blocks converted with
                      | some index =>
                          ⟨[.write temporary content, .remove temporary],
                            .error (.blockDiffers index)⟩
                      | none =>
                          ⟨[.write temporary content, .rename temporary .blocksBin,
                              .rename .blocksJsonl .preBinary] ++
                              dir.recordLength S content.length,
                            .ok (source.length, content.length)⟩

/-- Copy the chain file and a small manifest to another directory.  Returns what happens
there. -/
def exportSnapshot : List (Effect FileName) × Except ExportError SnapshotManifest :=
  if dir.interruptedRecovery then ([], .error .interruptedRecovery)
  else if recordsPruned (dir.readMeta S) then ([], .error .pruned)
  else
    match dir dir.blocksPath with
    | none => ([], .error .noChainFile)
    | some content =>
        let copy := Effect.write dir.blocksPath content
        match dir.readMeta S with
        | none => ([copy], .error .noMeta)
        | some record =>
            let manifest : SnapshotManifest := {
              version := 1
              network := record.network
              genesis := record.genesisHash
              tip := record.validatedTip
              blocks := record.blockCount
              format := dir.format.name }
            ([copy, .write .snapshot (S.snapshotJson manifest)], .ok manifest)

/-- The blocks that the block file decodes to. -/
def storedBlocks : Option (List Block) :=
  S.readBlocks dir.format ((dir dir.blocksPath).getD [])

end Datadir

/-- A data directory and the directory that snapshots go to. -/
structure Store where
  dir : Datadir
  out : Datadir

inductive StoreOp where
  | migrateToBinary
  | exportSnapshot
  | loadOrNew (env : LoadEnv) (network : NetworkId)

namespace Store

variable (P) (S : Serde)

def step (store : Store) : StoreOp → Store
  | .migrateToBinary =>
      { store with dir := store.dir.after (store.dir.migrateToBinary P S).effects }
  | .exportSnapshot =>
      { store with out := store.out.after (store.dir.exportSnapshot S).1 }
  | .loadOrNew env network => { store with dir := (store.dir.loadOrNew P S env network).2 }

/-- A load that fails.  The generator makes an id that no metadata names, and the chain
file has a length that fits a machine word. -/
def Fails (store : Store) : StoreOp → Prop
  | .loadOrNew env network =>
      (∃ error, (store.dir.loadOrNew P S env network).1 = .error error) ∧
        Datadir.IsDraw env.draw ∧
        (∀ record, store.dir.readMeta S = some record → record.validatedBy ≠ env.draw) ∧
        ∀ content, store.dir store.dir.blocksPath = some content → content.length < 2 ^ 64
  | _ => True

/-- The store after conversions, exports and failing loads. -/
def run (store : Store) (ops : List StoreOp) : Store :=
  GuardedRun.run (step P S) store ops

/-- No trust is made: an untrusted directory stays untrusted, and a conversion whose result
is trusted converted a trusted file to exactly its blocks. -/
def KeepsTrust (store : Store) (ops : List StoreOp) : Prop :=
  (¬Datadir.Trusted S store.dir → ¬Datadir.Trusted S (store.run P S ops).dir) ∧
    ∀ front back, ops = front ++ .migrateToBinary :: back →
      let before := (store.run P S front).dir
      let after := (store.run P S (front ++ [.migrateToBinary])).dir
      (before.migrateToBinary P S).verdict.isOk → Datadir.Trusted S after →
        Datadir.Trusted S before ∧
          ∃ blocks, before.storedBlocks S = some blocks ∧ after.storedBlocks S = some blocks

end Store

/-! ## What a conversion does -/

namespace Datadir

/-- The JSON file converts: it holds blocks, and their binary form is read back with the same
hashes. -/
structure Converts (P : Primitives) (S : Serde) (dir : Datadir) (source : Bytes)
    (blocks converted : List Block) : Prop where
  ready : dir.interruptedRecovery = false
  format : dir.format = .json
  held : dir .blocksJsonl = some source
  read : S.readBlocks .json source = some blocks
  nonempty : blocks ≠ []
  written : (S.writeBlocks .binary blocks).2 = true
  back : S.readBlocks .binary (S.encode .binary blocks) = some converted
  count : converted.length = blocks.length
  hashes : firstDifference P blocks converted = none

def Convertible (P : Primitives) (S : Serde) (dir : Datadir) : Prop :=
  ∃ source blocks converted, Converts P S dir source blocks converted

/-- The metadata names this installation. -/
def Owned (S : Serde) (dir : Datadir) : Prop :=
  ∃ record, dir.OwnRecord S record

variable {S : Serde} {dir left : Datadir} {source : Bytes} {blocks converted : List Block}

theorem format_eq_json (notBinary : ¬dir.format = .binary) : dir.format = .json := by
  cases format : dir.format with
  | json => rfl
  | binary => contradiction

theorem Converts.migrateToBinary (converts : Converts P S dir source blocks converted) :
    dir.migrateToBinary P S =
      ⟨[.write (.temporary .blocksBin) (S.encode .binary blocks),
          .rename (.temporary .blocksBin) .blocksBin, .rename .blocksJsonl .preBinary] ++
          dir.recordLength S (S.encode .binary blocks).length,
        .ok (source.length, (S.encode .binary blocks).length)⟩ := by
  have back := converts.back
  rw [Serde.encode] at back
  simp [Datadir.migrateToBinary, converts.ready, converts.format, converts.held, converts.read,
    converts.nonempty, converts.written, back, converts.count, converts.hashes, Serde.encode]

/-- A conversion that returns an error touches nothing but its temporary file. -/
theorem migrateToBinary_cases :
    Convertible P S dir ∨
      (∃ error, (dir.migrateToBinary P S).verdict = .error error) ∧
        ∀ effect ∈ (dir.migrateToBinary P S).effects, effect.names = [.temporary .blocksBin] := by
  unfold migrateToBinary
  split_ifs with interrupted binary
  · exact .inr ⟨⟨_, rfl⟩, nofun⟩
  · exact .inr ⟨⟨_, rfl⟩, nofun⟩
  · cases held : dir .blocksJsonl with
    | none => exact .inr ⟨⟨_, rfl⟩, nofun⟩
    | some source =>
        simp only
        cases read : S.readBlocks .json source with
        | none => exact .inr ⟨⟨_, rfl⟩, nofun⟩
        | some blocks =>
            simp only
            split_ifs with empty written
            · exact .inr ⟨⟨_, rfl⟩, nofun⟩
            · cases back : S.readBlocks .binary (S.writeBlocks .binary blocks).1 with
              | none => exact .inr ⟨⟨_, rfl⟩, by simp [Effect.names]⟩
              | some converted =>
                  simp only
                  split_ifs with count
                  · exact .inr ⟨⟨_, rfl⟩, by simp [Effect.names]⟩
                  · cases hashes : firstDifference P blocks converted with
                    | some index => exact .inr ⟨⟨_, rfl⟩, by simp [Effect.names]⟩
                    | none =>
                        simp only [Bool.not_eq_true] at interrupted
                        simp only [ne_eq, not_not] at count
                        exact .inl ⟨source, blocks, converted, interrupted, format_eq_json binary,
                          held, read, empty, written, back, count, hashes⟩
            · exact .inr ⟨⟨_, rfl⟩, by simp [Effect.names]⟩

/-- Whatever a conversion touches, it leaves the files of other names alone. -/
theorem migrateToBinary_file_of_error
    (unchanged : ∀ effect ∈ (dir.migrateToBinary P S).effects,
      effect.names = [.temporary .blocksBin]) {name : FileName}
    (other : name ≠ .temporary .blocksBin) :
    dir.after (dir.migrateToBinary P S).effects name = dir name :=
  run_of_notMem fun effect member => by simp [unchanged effect member, other]

/-- A successful conversion: the new file is in place, and the metadata records its length. -/
theorem Converts.after (converts : Converts P S dir source blocks converted) :
    let left := dir.after (dir.migrateToBinary P S).effects
    left .blocksBin = some (S.encode .binary blocks) ∧
      left.readMeta S =
        (dir.readMeta S).map (·.withLength (S.encode .binary blocks).length) ∧
      (∀ name, name ∉ [FileName.temporary .blocksBin, .blocksBin, .blocksJsonl, .preBinary,
        .temporary .chainMeta, .chainMeta] → left name = dir name) := by
  intro left
  let moved : Datadir := dir.after [.write (.temporary .blocksBin) (S.encode .binary blocks),
    .rename (.temporary .blocksBin) .blocksBin, .rename .blocksJsonl .preBinary]
  have shape : left = moved.after (dir.recordLength S (S.encode .binary blocks).length) := by
    simp only [left, moved, converts.migrateToBinary, Datadir.after]
    exact run_append _ _
  have binary : moved .blocksBin = some (S.encode .binary blocks) := by
    simp [moved, Datadir.after, Effect.apply, converts.held]
  have record : moved .chainMeta = dir .chainMeta :=
    run_of_notMem (by simp [Effect.names])
  have inLength : ∀ effect ∈ dir.recordLength S (S.encode .binary blocks).length,
      ∀ name ∈ effect.names, name = .temporary .chainMeta ∨ name = .chainMeta := by
    unfold recordLength
    cases dir.readMeta S with
    | none => simp
    | some record => simp [replace, Effect.names]
  have outside {name : FileName} (first : name ≠ .temporary .chainMeta)
      (second : name ≠ .chainMeta) : left name = moved name := by
    rw [shape]
    refine run_of_notMem fun effect member inside => ?_
    rcases inLength effect member name inside with same | same
    · exact first same
    · exact second same
  refine ⟨?_, ?_, ?_⟩
  · rw [outside (by decide) (by decide), binary]
  · rw [shape]
    unfold recordLength
    cases read : dir.readMeta S with
    | none => exact (readMeta_congr record).trans read
    | some held =>
        unfold Datadir.readMeta
        rw [Datadir.after, run_replace_self (by decide)]
        exact S.metaOfJson_metaJson _
  · intro name notMem
    simp only [List.mem_cons, List.not_mem_nil, or_false, not_or] at notMem
    rw [outside notMem.2.2.2.2.1 notMem.2.2.2.2.2]
    exact run_of_notMem (by simp [Effect.names, notMem])

/-- The record names this installation before and after a conversion. -/
theorem Converts.owned (converts : Converts P S dir source blocks converted) :
    Owned S (dir.after (dir.migrateToBinary P S).effects) ↔ Owned S dir := by
  obtain ⟨-, read, others⟩ := converts.after
  have ids : (dir.after (dir.migrateToBinary P S).effects).storedId = dir.storedId := by
    rw [storedId, storedId, others .installId (by decide)]
  have sides (record : ChainMeta) :
      (dir.after (dir.migrateToBinary P S).effects).sideFilesMatch record =
        dir.sideFilesMatch record :=
    sideFilesMatch_congr (others .horizon (by decide)) (others .headers (by decide))
  constructor
  · rintro ⟨record', own⟩
    have found := read.symm.trans own.read
    obtain ⟨record, held, rfl⟩ := Option.map_eq_some_iff.mp found
    refine ⟨record, held, own.tip, ids.symm.trans own.owner, own.sides.imp_right fun matched => ?_⟩
    exact (sides _).symm.trans matched
  · rintro ⟨record, own⟩
    have recorded : (dir.after (dir.migrateToBinary P S).effects).readMeta S =
        some (record.withLength (S.encode .binary blocks).length) := by
      rw [read, own.read]
      rfl
    refine ⟨_, recorded, own.tip, ids.trans own.owner,
      own.sides.imp_right fun matched => ?_⟩
    exact (sides _).trans matched

theorem Converts.format_after (converts : Converts P S dir source blocks converted) :
    (dir.after (dir.migrateToBinary P S).effects).format = .binary := by
  rw [Datadir.format, converts.after.1]
  rfl

theorem writeBlocks_ne_nil (written : (S.writeBlocks .binary blocks).2 = true)
    (nonempty : blocks ≠ []) : S.encode .binary blocks ≠ [] := by
  cases blocks with
  | nil => contradiction
  | cons block rest =>
      unfold Serde.encode
      unfold Serde.writeBlocks at written ⊢
      cases record : S.writeBlock .binary block with
      | none =>
          rw [record] at written
          contradiction
      | some bytes =>
          simp only [Serde.writeBlock] at record
          split_ifs at record
          obtain rfl := Option.some.inj record
          intro empty
          have := congrArg List.length empty
          simp at this

/-- The result of a conversion is trusted when the metadata names this installation,
whatever file was trusted before. -/
theorem Converts.trusted (converts : Converts P S dir source blocks converted) :
    Trusted S (dir.after (dir.migrateToBinary P S).effects) ↔ Owned S dir := by
  rw [← converts.owned]
  constructor
  · rintro ⟨record, own, -⟩
    exact ⟨record, own⟩
  · rintro ⟨record, own⟩
    refine ⟨record, own, ?_⟩
    obtain ⟨binary, read, -⟩ := converts.after
    have found := read.symm.trans own.read
    obtain ⟨old, -, rfl⟩ := Option.map_eq_some_iff.mp found
    have size : (dir.after (dir.migrateToBinary P S).effects).sizeOf
        (dir.after (dir.migrateToBinary P S).effects).blocksPath =
          (S.encode .binary blocks).length := by
      rw [sizeOf, Datadir.blocksPath, converts.format_after]
      exact congrArg (fun content : Option Bytes => (content.getD []).length) binary
    refine ⟨size.symm, ?_⟩
    rw [size]
    exact List.length_pos_iff.mpr (writeBlocks_ne_nil converts.written converts.nonempty) |>.ne'

theorem firstDifference_self (blocks : List Block) : firstDifference P blocks blocks = none := by
  induction blocks with
  | nil => rfl
  | cons block rest ih =>
      rw [firstDifference] at ih ⊢
      rw [List.zip_cons_cons, List.findIdx?_cons, ih]
      simp

/-- A JSON file of storable blocks converts. -/
theorem converts_of_storable (ready : dir.interruptedRecovery = false)
    (format : dir.format = .json) (held : dir .blocksJsonl = some (S.encode .json blocks))
    (nonempty : blocks ≠ []) (storable : ∀ block ∈ blocks, S.Storable .binary block)
    (legible : S.Legible .binary blocks) :
    Converts P S dir (S.encode .json blocks) blocks blocks where
  ready := ready
  format := format
  held := held
  read := Serde.readBlocks_encode (fun block member => ⟨(storable block member).version, nofun⟩) nofun
  nonempty := nonempty
  written := Serde.writeBlocks_of_storable storable
  back := Serde.readBlocks_encode storable legible
  count := rfl
  hashes := firstDifference_self blocks

/-- The new file decodes to the blocks that the old one held. -/
theorem Converts.storedBlocks (converts : Converts P S dir source blocks converted)
    (versions : ∀ block ∈ blocks, block.header.version = protocolVersion) :
    dir.storedBlocks S = some blocks ∧
      (dir.after (dir.migrateToBinary P S).effects).storedBlocks S = some blocks := by
  have storable := Serde.storable_of_writeBlocks converts.written versions
  constructor
  · rw [Datadir.storedBlocks, blocksPath, converts.format]
    exact (congrArg (fun content : Option Bytes => S.readBlocks .json (content.getD []))
      converts.held).trans converts.read
  · rw [Datadir.storedBlocks, blocksPath, converts.format_after]
    have back := converts.back
    rw [Serde.readBlocks] at back
    split at back
    · contradiction
    next notJson =>
    rw [Serde.encode_binary storable, Records.readFramed_frames (by decide)
      (fun block member => Serde.framed_of_storable (storable block member)) le_rfl] at back
    refine (congrArg (fun content : Option Bytes => S.readBlocks .binary (content.getD []))
      converts.after.1).trans ?_
    rw [Option.getD_some, converts.back, ← back]

/-! ## What the operations keep -/

theorem converts_congr (others : ∀ name, name ≠ .temporary .blocksBin → name ≠ .installId →
    left name = dir name) :
    Converts P S left source blocks converted ↔ Converts P S dir source blocks converted := by
  have journal : left.interruptedRecovery = dir.interruptedRecovery := by
    rw [interruptedRecovery, interruptedRecovery, others _ (by decide) (by decide)]
  have format : left.format = dir.format :=
    format_congr (others _ (by decide) (by decide)) (others _ (by decide) (by decide))
  have held : left .blocksJsonl = dir .blocksJsonl := others _ (by decide) (by decide)
  constructor
  · intro converts
    exact { converts with
      ready := journal ▸ converts.ready
      format := format ▸ converts.format
      held := held ▸ converts.held }
  · intro converts
    exact { converts with
      ready := journal.trans converts.ready
      format := format.trans converts.format
      held := held.trans converts.held }

/-- What one operation does to trust, to the record and to a conversion. -/
structure Steps (P : Primitives) (S : Serde) (dir left : Datadir) (migrates : Prop) : Prop where
  trusted : Trusted S left ↔ Trusted S dir ∨ migrates ∧ Convertible P S dir ∧ Owned S dir
  owned : Owned S left ↔ Owned S dir
  converts : ∀ source blocks converted, Converts P S left source blocks converted →
    Converts P S dir source blocks converted
  convertible : Convertible P S left ↔ ¬migrates ∧ Convertible P S dir

theorem Trusted.owned (trusted : Trusted S dir) : Owned S dir := by
  obtain ⟨record, own, -⟩ := trusted
  exact ⟨record, own⟩

/-- An operation that keeps the record, the id and the chain file. -/
theorem Steps.of_iff {migrates : Prop} (never : ¬(migrates ∧ Convertible P S dir))
    (trusted : Trusted S left ↔ Trusted S dir) (owned : Owned S left ↔ Owned S dir)
    (others : ∀ name, name ≠ .temporary .blocksBin → name ≠ .installId → left name = dir name) :
    Steps P S dir left migrates := by
  have convertible : Convertible P S left ↔ Convertible P S dir := by
    unfold Convertible
    simp only [converts_congr others]
  refine ⟨?_, owned, fun _ _ _ => (converts_congr others).mp, ?_⟩
  · rw [trusted]
    exact ⟨.inl, fun either => either.elim id fun made => absurd ⟨made.1, made.2.1⟩ never⟩
  · rw [convertible]
    exact ⟨fun holds => ⟨fun migrates => never ⟨migrates, holds⟩, holds⟩, And.right⟩

theorem steps_migrateToBinary :
    Steps P S dir (dir.after (dir.migrateToBinary P S).effects) True := by
  rcases migrateToBinary_cases with ⟨source, blocks, converted, converts⟩ | ⟨failed, unchanged⟩
  · have never : ¬Convertible P S (dir.after (dir.migrateToBinary P S).effects) := by
      rintro ⟨_, _, _, again⟩
      have json := again.format
      rw [converts.format_after] at json
      contradiction
    constructor
    · rw [converts.trusted]
      constructor
      · exact fun owned => .inr ⟨trivial, ⟨_, _, _, converts⟩, owned⟩
      · rintro (trusted | ⟨-, -, owned⟩)
        · exact trusted.owned
        · exact owned
    · exact converts.owned
    · exact fun _ _ _ again => absurd ⟨_, _, _, again⟩ never
    · simpa using never
  · have others {name : FileName} (other : name ≠ .temporary .blocksBin) :
        dir.after (dir.migrateToBinary P S).effects name = dir name :=
      migrateToBinary_file_of_error unchanged other
    have own (record : ChainMeta) := @ownRecord_congr S dir _ record (others (by decide))
      (others (by decide)) (others (by decide)) (others (by decide))
    have path : (dir.after (dir.migrateToBinary P S).effects).blocksPath = dir.blocksPath := by
      rw [blocksPath, blocksPath, format_congr (others (by decide)) (others (by decide))]
    have size : (dir.after (dir.migrateToBinary P S).effects).sizeOf
        (dir.after (dir.migrateToBinary P S).effects).blocksPath = dir.sizeOf dir.blocksPath := by
      rw [sizeOf, sizeOf, path, others (blocksPath_ne (by decide) (by decide))]
    refine .of_iff ?_ ?_ ?_ fun name other _ => others other
    · rintro ⟨-, source, blocks, converted, converts⟩
      obtain ⟨error, failed⟩ := failed
      rw [converts.migrateToBinary] at failed
      contradiction
    · simp only [Trusted, own, HasRecordedLength, size]
    · simp only [Owned, own]

theorem Settled.steps {draw : Bytes} (settled : Settled dir draw left) (isDraw : IsDraw draw)
    (fresh : ∀ record, dir.readMeta S = some record → record.validatedBy ≠ draw) :
    Steps P S dir left False := by
  refine .of_iff (fun impossible => impossible.1) (settled.trusted isDraw fresh) ?_
    fun name _ other => settled.file other
  unfold Owned
  simp only [settled.ownRecord isDraw fresh]

end Datadir

/-! ## Runs -/

namespace Store

variable {S : Serde} {store : Store} {ops : List StoreOp}

/-- One operation. -/
theorem steps {op : StoreOp} (fails : store.Fails P S op) :
    Datadir.Steps P S store.dir (store.step P S op).dir (op = .migrateToBinary) := by
  cases op with
  | migrateToBinary => simpa [step] using Datadir.steps_migrateToBinary
  | exportSnapshot =>
      exact .of_iff (by simp) Iff.rfl Iff.rfl fun _ _ _ => rfl
  | loadOrNew env network =>
      obtain ⟨⟨error, failed⟩, isDraw, fresh, short⟩ := fails
      have settled := Datadir.settled_of_loadOrNew_error isDraw short failed
      simpa [step] using settled.steps isDraw fresh

/-- A run of operations. -/
theorem steps_run (fails : GuardedRun.Along (step P S) (Fails P S) store ops) :
    Datadir.Steps P S store.dir (store.run P S ops).dir (.migrateToBinary ∈ ops) := by
  induction ops generalizing store with
  | nil => exact .of_iff (by simp) Iff.rfl Iff.rfl fun _ _ _ => rfl
  | cons op rest ih =>
      have first := steps fails.1
      have later := ih fails.2
      change Datadir.Steps P S store.dir ((store.step P S op).run P S rest).dir _
      constructor
      · rw [later.trusted, first.trusted, first.convertible, first.owned, List.mem_cons,
          eq_comm (a := op)]
        tauto
      · rw [later.owned, first.owned]
      · exact fun source blocks converted converts =>
          first.converts _ _ _ (later.converts _ _ _ converts)
      · rw [later.convertible, first.convertible, List.mem_cons, eq_comm (a := op)]
        tauto

/-- No trust is made exactly when no conversion meets an untrusted JSON file that converts
beside metadata of this installation: the conversion records the length of its result
without asking whether its source was trusted. -/
theorem keepsTrust_iff (fails : GuardedRun.Along (step P S) (Fails P S) store ops)
    (earned : Datadir.Trusted S store.dir → ∀ blocks, store.dir.storedBlocks S = some blocks →
      ∀ block ∈ blocks, block.header.version = protocolVersion) :
    KeepsTrust P S store ops ↔
      (.migrateToBinary ∈ ops → Datadir.Convertible P S store.dir → Datadir.Owned S store.dir →
        Datadir.Trusted S store.dir) := by
  have all := steps_run fails
  constructor
  · rintro ⟨kept, -⟩ migrates convertible owned
    by_contra untrusted
    exact kept untrusted (all.trusted.mpr (.inr ⟨migrates, convertible, owned⟩))
  · intro condition
    constructor
    · intro untrusted trusted
      rcases all.trusted.mp trusted with already | ⟨migrates, convertible, owned⟩
      · exact untrusted already
      · exact untrusted (condition migrates convertible owned)
    · rintro front back rfl before after converted trusted
      have front := steps_run fails.append.1
      have there : after = before.after (before.migrateToBinary P S).effects := by
        simp only [after, before, Store.run, GuardedRun.run_append]
        rfl
      rw [there] at trusted ⊢
      rcases @Datadir.migrateToBinary_cases P S before with
        ⟨source, blocks, written, converts⟩ | ⟨⟨error, failed⟩, -⟩
      · have owned := front.owned.mp (converts.trusted.mp trusted)
        have original := front.converts _ _ _ converts
        have start : Datadir.Trusted S store.dir :=
          condition (by simp) ⟨_, _, _, original⟩ owned
        have sourceBlocks : store.dir.storedBlocks S = some blocks := by
          rw [Datadir.storedBlocks, Datadir.blocksPath, original.format]
          exact (congrArg (fun content : Option Bytes => S.readBlocks .json (content.getD []))
            original.held).trans original.read
        refine ⟨front.trusted.mpr (.inl start), blocks, ?_⟩
        exact converts.storedBlocks (earned start blocks sourceBlocks)
      · rw [failed] at converted
        contradiction

theorem run_migrateToBinary (store : Store) : (store.run P S [.migrateToBinary]).dir =
    store.dir.after (store.dir.migrateToBinary P S).effects :=
  rfl

section Sample

open Sample

/-- A record of the sample chain that names an installation and a length. -/
def sampleRecord (owner : Bytes) (length : Nat) : ChainMeta where
  network := .devnet
  genesisHash := (genesisHash primitives .devnet).toHex
  blockCount := 2
  protocolVersion := protocolVersion
  validatedBy := owner
  validatedTip := (block1.hash primitives).toHex
  validatedBytes := length
  firstHeight := 0
  pruned := false
  horizonWork := [48]
  validatedHorizonBytes := 0
  validatedHeadersBytes := 0

/-- A JSON file whose second body was altered, beside metadata that names the owner. -/
noncomputable def alteredStore (owner : Bytes) : Store where
  dir
    | .blocksJsonl => some (serde.encode .json [block0, altered1])
    | .chainMeta => some (serde.metaJson (sampleRecord owner 0))
    | .installId => some installation
    | _ => none
  out _ := none

theorem alteredStore_readMeta (owner : Bytes) :
    (alteredStore owner).dir.readMeta serde = some (sampleRecord owner 0) :=
  serde.metaOfJson_metaJson _

theorem alteredStore_storedId (owner : Bytes) :
    (alteredStore owner).dir.storedId = some installation :=
  Datadir.storedId_of_isDraw installation_isDraw rfl

/-- The record names a length that no file with blocks has. -/
theorem alteredStore_untrusted (owner : Bytes) :
    ¬Datadir.Trusted serde (alteredStore owner).dir := by
  rintro ⟨record, own, length, nonempty⟩
  obtain rfl := Option.some.inj ((alteredStore_readMeta owner).symm.trans own.read)
  exact nonempty length.symm

theorem alteredStore_converts (owner : Bytes) :
    Datadir.Converts primitives serde (alteredStore owner).dir
      (serde.encode .json [block0, altered1]) [block0, altered1] [block0, altered1] := by
  have inside : [block0, altered1] ⊆ [block0, block1, altered1, block2, block3] := by simp
  exact Datadir.converts_of_storable rfl rfl rfl (by simp)
    (fun block member => storable .binary (inside member)) (legible .binary inside)

/-- A conversion makes an altered file trusted. -/
theorem altered_file_trusted :
    ¬(alteredStore installation).KeepsTrust primitives serde [.migrateToBinary] := by
  rintro ⟨kept, -⟩
  refine kept (alteredStore_untrusted installation) ?_
  rw [run_migrateToBinary, (alteredStore_converts installation).trusted]
  have tip : (sampleRecord installation 0).validatedTip ≠ [] :=
    Bytes32.toHex_ne_nil (block1.hash primitives)
  exact ⟨sampleRecord installation 0, {
    read := alteredStore_readMeta installation
    tip := tip
    owner := alteredStore_storedId installation
    sides := .inl ⟨rfl, rfl⟩ }⟩

/-- Beside the metadata of another installation, the same conversion after a load of the
wrong network is kept untrusted. -/
theorem keepsTrust_foreign :
    (alteredStore visitor).KeepsTrust primitives serde
      [.loadOrNew ⟨now, now, drawn⟩ .mainnet, .exportSnapshot, .migrateToBinary] := by
  have failed : ((alteredStore visitor).dir.loadOrNew primitives serde ⟨now, now, drawn⟩
      .mainnet).1 = .error (.otherNetwork .devnet) := by
    have foreign : ((alteredStore visitor).dir.readMeta serde).filter
        (fun record => record.network ≠ NetworkId.mainnet) = some (sampleRecord visitor 0) := by
      rw [alteredStore_readMeta]
      rfl
    unfold Datadir.loadOrNew
    rw [if_neg (by decide), if_neg (by decide), if_neg nofun, foreign]
    rfl
  have fresh : ∀ record, (alteredStore visitor).dir.readMeta serde = some record →
      record.validatedBy ≠ drawn := by
    intro record read
    obtain rfl := Option.some.inj ((alteredStore_readMeta visitor).symm.trans read)
    change visitor ≠ drawn
    decide
  have short : ∀ content, (alteredStore visitor).dir (alteredStore visitor).dir.blocksPath =
      some content → content.length < 2 ^ 64 := by
    intro content held
    obtain rfl := Option.some.inj held
    have inside : [block0, altered1] ⊆ [block0, block1, altered1, block2, block3] := by simp
    exact (length_encode_json_le inside).trans_lt (by decide)
  have fails : GuardedRun.Along (step primitives serde) (Fails primitives serde)
      (alteredStore visitor) [.loadOrNew ⟨now, now, drawn⟩ .mainnet, .exportSnapshot,
        .migrateToBinary] :=
    And.intro ⟨⟨_, failed⟩, drawn_isDraw, fresh, short⟩
      (And.intro trivial (And.intro trivial trivial))
  refine (keepsTrust_iff fails ?_).mpr ?_
  · exact fun trusted => absurd trusted (alteredStore_untrusted _)
  · rintro - - ⟨record, own⟩
    obtain rfl := Option.some.inj ((alteredStore_readMeta visitor).symm.trans own.read)
    have owner := own.owner
    rw [alteredStore_storedId] at owner
    exact absurd (Option.some.inj owner) (show installation ≠ visitor by decide)

end Sample

end Store

end Nightfall
