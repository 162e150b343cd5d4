import Nightfall.Library.Moves
import Nightfall.Storage.Import
import Nightfall.Storage.Saving

/-!
# Offline recovery

`recover-stalled-fork` moves the chain files of a stalled node into a new backup directory
and installs a fresh genesis.  A journal marks the data directory while it does so.
-/

namespace Nightfall

open Files

/-! ## The disk -/

/-- The data directory, or a directory inside it. -/
inductive Place where
  | datadir
  | inside (directory : Bytes)
  deriving DecidableEq

/-- An entry that is not a regular file. -/
inductive SpecialEntry where
  | symlink
  | other
  deriving DecidableEq

structure Disk where
  /-- The data directory is a directory and no symbolic link. -/
  usable : Bool
  /-- The names in the data directory that no new directory can take. -/
  taken : List Bytes
  /-- The entries of the data directory that are not regular files. -/
  special : FileName → Option SpecialEntry
  /-- What a read of each file gives. -/
  files : Files.Tree (Place × FileName)

namespace Disk

variable (disk : Disk)

/-- The files of one directory. -/
def folder (place : Place) : Datadir :=
  fun name => disk.files (place, name)

/-- The disk with a new directory that holds these files. -/
def withDirectory (directory : Bytes) (tree : Datadir) : Disk :=
  { disk with
    taken := directory :: disk.taken
    files := fun key => if key.1 = .inside directory then tree key.2 else disk.files key }

def isRegularFile (name : FileName) : Bool :=
  disk.special name = none && (disk.folder .datadir name).isSome

end Disk

/-! ## The reset -/

inductive RecoverError where
  | notForced
  | notUsable
  | mixedFormat
  | symlink (name : FileName)
  | notRegular (name : FileName)
  | noChain
  | interruptedRecovery
  | noMeta
  | unreadableMeta
  | noNetwork
  | unknownNetwork
  | noGenesis
  | otherNetwork (held : NetworkId)
  | otherGenesis
  | noUniqueDirectory
  | stagingFormat
  | stagingSave (source : SaveError)
  | stagingLoad (source : LoadError)
  | stagingNotClean
  | resetUnreadable
  | resetNotEmpty (blockCount : Nat)
  | resetGenesis
  | resetFormat
  deriving DecidableEq

structure RecoverOpts where
  network : NetworkId
  force : Bool

/-- What the reset asks of its surroundings. -/
structure RecoverEnv where
  /-- The path of the data directory. -/
  path : Bytes
  /-- The JSON parser. -/
  parseJson : Bytes → Option Json.Value
  /-- Clock and counter at each attempt to name a directory. -/
  backupDraws : List (Nat × Nat)
  stagingDraws : List (Nat × Nat)
  saveDraw : Bytes
  load : LoadEnv
  startedUnix : UInt64

structure RecoverReport where
  backup : Bytes
  format : Format
  previousHeight : Nat
  previousTip : Option Bytes
  genesisHash : Bytes
  filesBackedUp : List FileName

/-- Chain-state files that recovery backs up and resets. -/
def chainFiles : List FileName :=
  [.blocksBin, .blocksJsonl, .headers, .horizon, .chainMeta, .legacyChain, .preBinary]

/-- Chain files present in a directory, each confirmed a regular, non-symlinked file. -/
def presentAmong (special : FileName → Option SpecialEntry) (dir : Datadir) :
    List FileName → Except RecoverError (List FileName)
  | [] => .ok []
  | name :: rest => do
      Guard.refuse (special name = some .symlink) (.symlink name)
      Guard.refuse (special name = some .other) (.notRegular name)
      let others ← presentAmong special dir rest
      .ok (if (dir name).isSome then name :: others else others)

def presentChainFiles (special : FileName → Option SpecialEntry) (dir : Datadir) :
    Except RecoverError (List FileName) :=
  presentAmong special dir chainFiles

/-- The network of that name. -/
def NetworkId.ofName (name : Bytes) : Option NetworkId :=
  if name = ascii "mainnet" then some .mainnet
  else if name = ascii "testnet" then some .testnet
  else if name = ascii "devnet" then some .devnet
  else none

/-- A field of a JSON object. -/
def Json.Value.get (name : Bytes) : Json.Value → Option Json.Value
  | .object fields => fields.lookup name
  | _ => none

def Json.Value.asText : Json.Value → Option Bytes
  | .text text => some text
  | _ => none

/-- The network and the genesis that the metadata names. -/
def readMetaIdentity (env : RecoverEnv) (content : Bytes) :
    Except RecoverError (NetworkId × Bytes) := do
  Guard.refuse (¬Utf8.isValid content) .unreadableMeta
  let value ← Guard.need (env.parseJson content) .unreadableMeta
  let name ← Guard.need ((Json.Value.get (ascii "network") value).bind Json.Value.asText)
    .noNetwork
  let network ← Guard.need (NetworkId.ofName name) .unknownNetwork
  let genesis ← Guard.need (((Json.Value.get (ascii "genesis_hash") value).bind
    Json.Value.asText).filter (· ≠ [])) .noGenesis
  .ok (network, genesis)

/-- A freshly created directory: the first name of the attempts that is free. -/
def uniqueDir (taken : List Bytes) (stem : Bytes) (draws : List (Nat × Nat)) : Option Bytes :=
  ((draws.take 10000).map fun draw =>
    stem ++ Utf8.decimal draw.1 ++ ascii "-" ++ Utf8.decimal draw.2).find? (· ∉ taken)

def backupPrefix : Bytes := ascii "recovery-backup-"

def stagingPrefix : Bytes := ascii ".recovery-staging-"

/-- A layout that passed the checks, with the name of its backup directory. -/
structure Stalled where
  network : NetworkId
  format : Format
  present : List FileName
  previousHeight : Nat
  previousTip : Option Bytes
  backup : Bytes

/-- A reset with both of its new directories. -/
structure Reset extends Stalled where
  staging : Bytes

namespace Datadir

variable (S : Serde) (dir : Datadir)

/-- Last validated tip without replaying the chain. -/
def peekMeta : Option (Nat × Bytes × Bytes) :=
  ((dir.readMeta S).filter fun record => record.validatedTip ≠ []).map fun record =>
    (record.blockCount, record.validatedTip, record.genesisHash)

end Datadir

section Reset

variable (P : Primitives) (S : Serde) (opts : RecoverOpts) (env : RecoverEnv) (disk : Disk)

/-- The checks in front of the reset, up to the name of the backup directory. -/
def checkLayout : Except RecoverError Stalled := do
  Guard.refuse (¬opts.force) .notForced
  Guard.refuse (¬disk.usable) .notUsable
  let dir := disk.folder .datadir
  Guard.refuse (disk.isRegularFile .blocksBin ∧ disk.isRegularFile .blocksJsonl) .mixedFormat
  let present ← presentChainFiles disk.special dir
  Guard.refuse (present = []) .noChain
  Guard.refuse (disk.special .recoveryJournal ≠ none ∨ dir.interruptedRecovery)
    .interruptedRecovery
  let content ← Guard.need (dir .chainMeta) .noMeta
  let (network, genesis) ← readMetaIdentity env content
  Guard.refuse (network ≠ opts.network) (.otherNetwork network)
  Guard.refuse (genesis ≠ (genesisHash P opts.network).toHex) .otherGenesis
  let previous := dir.peekMeta S
  let backup ← Guard.need (uniqueDir disk.taken backupPrefix env.backupDraws) .noUniqueDirectory
  .ok {
    network := opts.network
    format := dir.format
    present := present
    previousHeight := (previous.map fun found => found.1).getD 0
    previousTip := previous.map fun found => found.2.1
    backup := backup }

/-- The reset of a layout, once the staging directory has a name. -/
def Stalled.reset (stalled : Stalled) : Option Reset :=
  (uniqueDir (stalled.backup :: disk.taken) stagingPrefix env.stagingDraws).map fun staging =>
    { stalled with staging := staging }

/-- The staging directory before the first save: the install id is copied, and an empty chain
file keeps the format. -/
def stagingShape (dir : Datadir) (format : Format) : Datadir :=
  let empty : Datadir := fun _ => none
  let copied : Datadir := (dir .installId).elim empty (put empty .installId)
  if format = .json then put copied .blocksJsonl [] else copied

/-- Build a fresh genesis in the staging directory and verify that it reloads. -/
def buildAndVerifyFresh (dir : Datadir) (network : NetworkId) (format : Format) :
    Except RecoverError Unit × Datadir :=
  let shaped := stagingShape dir format
  if shaped.format ≠ format then (.error .stagingFormat, shaped)
  else
    let plan := shaped.save S env.saveDraw (Chain.newFair P network)
    let saved := shaped.after plan.effects
    match plan.verdict with
    | .error error => (.error (.stagingSave error), saved)
    | .ok () =>
        let (loaded, checked) := saved.loadOrNew P S env.load network
        match loaded with
        | .error error => (.error (.stagingLoad error), checked)
        | .ok chain =>
            if chain.network ≠ network ∨ chain.blockCount ≠ 0 then
              (.error .stagingNotClean, checked)
            else if checked.format ≠ format then (.error .stagingFormat, checked)
            else (.ok (), checked)

/-- The datadir holds a clean fresh genesis. -/
def verifyFreshDatadir (dir : Datadir) (network : NetworkId) (format : Format) :
    Except RecoverError Unit := do
  let (count, _, genesis) ← Guard.need (dir.peekMeta S) .resetUnreadable
  Guard.refuse (count ≠ 0) (.resetNotEmpty count)
  Guard.refuse (genesis ≠ (genesisHash P network).toHex) .resetGenesis
  Guard.refuse (dir.format ≠ format) .resetFormat

namespace Reset

variable (reset : Reset)

/-- The text of the journal. -/
def journalText : Bytes :=
  Json.render (.object [
    (ascii "backup", .text (env.path ++ ascii "/" ++ reset.backup)),
    (ascii "network", reset.network.toJson),
    (ascii "started_unix", jsonOfU64 env.startedUnix)])

/-- The originals go into the backup directory. -/
def backUp : List (Effect (Place × FileName)) :=
  moves (fun name => (.datadir, name)) (fun name => (.inside reset.backup, name)) reset.present

/-- The chain files of the staging directory. -/
def staged (tree : Datadir) : List FileName :=
  ((presentChainFiles (fun _ => none) tree).toOption).getD []

def install (tree : Datadir) : List (Effect (Place × FileName)) :=
  moves (fun name => (.inside reset.staging, name)) (fun name => (.datadir, name))
    (staged tree)

/-- The staging directory goes, with the files that may still be in it. -/
def clearStaging : List (Effect (Place × FileName)) :=
  (FileName.installId :: .temporary .blocksBin :: .temporary .blocksJsonl ::
    .temporary .chainMeta :: chainFiles).map fun name => .remove (.inside reset.staging, name)

/-- The journal, the moves out and the moves in. -/
def exchange (tree : Datadir) : List (Effect (Place × FileName)) :=
  .write (.datadir, .recoveryJournal) (reset.journalText env) ::
    (reset.backUp ++ reset.install tree ++ reset.clearStaging)

/-- The disk with the new directories, once the genesis is staged. -/
def stage (tree : Datadir) : Disk :=
  (disk.withDirectory reset.backup fun _ => none).withDirectory reset.staging tree

/-- The journal goes once the datadir is verified. -/
def unmark : Except RecoverError Unit → List (Effect (Place × FileName))
  | .error _ => []
  | .ok _ => [.remove (.datadir, .recoveryJournal)]

/-- What the datadir holds after the exchange. -/
def exchanged (tree : Datadir) : Datadir :=
  fun name => run (reset.stage disk tree).files (reset.exchange env tree) (.datadir, name)

/-- Everything that happens behind the staging. -/
def effects (tree : Datadir) : List (Effect (Place × FileName)) :=
  reset.exchange env tree ++
    unmark (verifyFreshDatadir P S (reset.exchanged env disk tree) reset.network reset.format)

end Reset

/-- What an error or a stop at any step may leave of a reset. -/
inductive Stalled.Leaves (stalled : Stalled) : Disk → Prop where
  /-- Nothing was changed, or the new directories were taken away again. -/
  | unchanged : Leaves stalled disk
  /-- Only the backup directory was made. -/
  | named : Leaves stalled (disk.withDirectory stalled.backup fun _ => none)
  /-- Some of the genesis is staged, or some of it is removed again. -/
  | staging {reset : Reset} (free : stalled.reset env disk = some reset) (tree : Datadir) :
      Leaves stalled (reset.stage disk tree)
  /-- The backup directory is gone again, the staging directory not quite. -/
  | cleaning {reset : Reset} (free : stalled.reset env disk = some reset) (tree : Datadir) :
      Leaves stalled (disk.withDirectory reset.staging tree)
  /-- The genesis is staged and verified, and a part of the effects has happened. -/
  | moving {reset : Reset} {tree : Datadir} {files : Files.Tree (Place × FileName)}
      (free : stalled.reset env disk = some reset)
      (built : buildAndVerifyFresh P S env (disk.folder .datadir) reset.network reset.format =
        (.ok (), tree))
      (interrupted : Interrupted (reset.stage disk tree).files (reset.effects P S env disk tree)
        files) : Leaves stalled { reset.stage disk tree with files := files }

/-- Back up a stalled-fork chain and reset the datadir to a fresh genesis. -/
def recoverStalledFork : Except RecoverError RecoverReport × Disk :=
  match checkLayout P S opts env disk with
  | .error error => (.error error, disk)
  | .ok stalled =>
      match stalled.reset env disk with
      | none => (.error .noUniqueDirectory, disk.withDirectory stalled.backup fun _ => none)
      | some reset =>
          match buildAndVerifyFresh P S env (disk.folder .datadir) reset.network reset.format with
          | (.error error, _) => (.error error, disk)
          | (.ok (), tree) =>
              let start := reset.stage disk tree
              let left := { start with
                files := run start.files (reset.effects P S env disk tree) }
              match verifyFreshDatadir P S (reset.exchanged env disk tree) reset.network
                  reset.format with
              | .error error => (.error error, left)
              | .ok () => (.ok {
                  backup := reset.backup
                  format := reset.format
                  previousHeight := reset.previousHeight
                  previousTip := reset.previousTip
                  genesisHash := (genesisHash P reset.network).toHex
                  filesBackedUp := reset.present }, left)

end Reset

/-! ## What the reset promises -/

/-- Every load, conversion, export and import refuses the directory. -/
def Datadir.RefusesAll (P : Primitives) (S : Serde) (dir : Datadir) : Prop :=
  (∀ env network, (dir.loadOrNew P S env network).1 = .error .interruptedRecovery) ∧
    (dir.migrateToBinary P S).verdict = .error .interruptedRecovery ∧
    (dir.exportSnapshot S).2 = .error .interruptedRecovery ∧
    ∀ env draw network source,
      (dir.importSnapshot P S env draw network source).1 = .error .interruptedRecovery

/-- A complete fresh genesis: a block file and metadata that load as one. -/
structure Datadir.FreshGenesis (P : Primitives) (S : Serde) (dir : Datadir) (network : NetworkId)
    (format : Format) : Prop where
  sameFormat : dir.format = format
  files : ∀ name ∈ chainFiles, (dir name).isSome ↔ name = format.fileName ∨ name = .chainMeta
  loads : ∀ env, (dir.loadOrNew P S env network).1 = .ok (Chain.newFair P network)

section Guards

variable {P : Primitives} {S : Serde} {dir : Datadir}

theorem Datadir.refusesAll_of_journal (journal : (dir .recoveryJournal).isSome) :
    dir.RefusesAll P S := by
  refine ⟨fun env network => ?_, ?_, ?_, fun env draw network source => ?_⟩
  · simp [loadOrNew, interruptedRecovery, journal]
  · simp [migrateToBinary, interruptedRecovery, journal]
  · simp [exportSnapshot, interruptedRecovery, journal]
  · simp [importSnapshot, interruptedRecovery, journal]

variable {special : FileName → Option SpecialEntry} {names found : List FileName}

theorem presentAmong_eq_ok : presentAmong special dir names = .ok found ↔
    (∀ name ∈ names, special name = none) ∧ found = names.filter fun name => (dir name).isSome := by
  induction names generalizing found with
  | nil => simp [presentAmong, eq_comm]
  | cons name rest ih =>
      simp only [presentAmong, Guard.bind_eq_ok, Guard.refuse_eq_ok, Except.ok.injEq, ih]
      constructor
      · rintro ⟨_, noLink, _, noOther, others, ⟨plain, rfl⟩, rfl⟩
        refine ⟨?_, ?_⟩
        · rw [List.forall_mem_cons]
          refine ⟨?_, plain⟩
          cases kind : special name with
          | none => rfl
          | some entry =>
              cases entry with
              | symlink => exact absurd kind noLink
              | other => exact absurd kind noOther
        · rw [List.filter_cons]
      · rintro ⟨plain, rfl⟩
        have first := plain name List.mem_cons_self
        refine ⟨(), by simp [first], (), by simp [first], _,
          ⟨fun other member => plain other (List.mem_cons_of_mem _ member), rfl⟩, ?_⟩
        rw [List.filter_cons]

theorem uniqueDir_free {taken : List Bytes} {stem found : Bytes} {draws : List (Nat × Nat)}
    (drawn : uniqueDir taken stem draws = some found) : found ∉ taken := by
  have free := List.find?_some drawn
  simpa using free

end Guards

/-! ## The staged genesis -/

/-- The chain files of a fresh genesis. -/
structure Datadir.HoldsGenesis (P : Primitives) (S : Serde) (dir : Datadir) (network : NetworkId)
    (format : Format) : Prop where
  bodies : dir format.fileName = some []
  record : ∃ record, dir.readMeta S = some record ∧ record.network = network ∧
    record.validatedBytes = 0 ∧ record.pruned = false ∧ record.firstHeight = 0 ∧
    record.blockCount = 0 ∧ record.genesisHash = (genesisHash P network).toHex ∧
    record.validatedTip ≠ []
  others : ∀ name ∈ chainFiles, name ≠ format.fileName → name ≠ .chainMeta → dir name = none

namespace Datadir

variable {P : Primitives} {S : Serde} {dir left : Datadir} {network : NetworkId} {format : Format}
  {env : LoadEnv} {draw : Bytes}

theorem fileName_mem_chainFiles (format : Format) : format.fileName ∈ chainFiles := by
  cases format <;> decide

theorem fileName_ne_chainMeta (format : Format) : format.fileName ≠ .chainMeta := by
  cases format <;> decide

namespace HoldsGenesis

theorem congr (holds : HoldsGenesis P S dir network format)
    (same : ∀ name ∈ chainFiles, left name = dir name) : HoldsGenesis P S left network format where
  bodies := by rw [same _ (fileName_mem_chainFiles format), holds.bodies]
  record := by
    rw [readMeta_congr (same .chainMeta (by decide))]
    exact holds.record
  others name member noBodies noMeta := by
    rw [same name member, holds.others name member noBodies noMeta]

theorem format_eq (holds : HoldsGenesis P S dir network format) : dir.format = format := by
  have bodies := holds.bodies
  cases format with
  | binary => simp_all [Datadir.format, Format.fileName]
  | json =>
      have binary := holds.others .blocksBin (by decide) (by decide) (by decide)
      simp_all [Datadir.format, Format.fileName]

theorem blocksPath_eq (holds : HoldsGenesis P S dir network format) :
    dir dir.blocksPath = some [] := by
  rw [blocksPath, holds.format_eq, holds.bodies]

theorem files (holds : HoldsGenesis P S dir network format) {name : FileName}
    (member : name ∈ chainFiles) :
    (dir name).isSome ↔ name = format.fileName ∨ name = .chainMeta := by
  constructor
  · intro present
    by_contra neither
    rw [not_or] at neither
    rw [holds.others name member neither.1 neither.2] at present
    contradiction
  · rintro (rfl | rfl)
    · rw [holds.bodies]
      rfl
    · obtain ⟨record, read, -⟩ := holds.record
      rw [readMeta] at read
      exact Option.isSome_of_mem (Option.bind_eq_some_iff.mp read).choose_spec.1

/-- A recorded length of zero repairs nothing. -/
theorem repair (holds : HoldsGenesis P S dir network format) :
    dir.recoverUncommittedArchiveTail P S env network = dir := by
  obtain ⟨record, read, -, bytes, -⟩ := holds.record
  unfold recoverUncommittedArchiveTail
  simp [read, bytes]

theorem untrusted (holds : HoldsGenesis P S dir network format) :
    (dir.isOwnFileTrusted S draw).1 = false ∧
      SameBut [.installId] dir (dir.isOwnFileTrusted S draw).2 := by
  obtain ⟨record, read, -, bytes, -⟩ := holds.record
  have same : SameBut [.installId] dir (dir.after (dir.installId draw).2) := by
    apply sameBut_after
    intro effect member name named
    unfold installId at member
    cases stored : dir.storedId with
    | some id => simp [stored] at member
    | none => simp_all [Effect.names]
  have size : (dir.after (dir.installId draw).2).sizeOf
      (dir.after (dir.installId draw).2).blocksPath = 0 := by
    unfold sizeOf
    rw [same.blocks (by simp) (by simp), holds.blocksPath_eq]
    rfl
  unfold isOwnFileTrusted
  simp only [read, bytes, size]
  split_ifs
  · exact ⟨rfl, fun _ _ => rfl⟩
  · exact ⟨rfl, fun _ _ => rfl⟩
  · exact ⟨rfl, same⟩
  · exact ⟨rfl, same⟩
  all_goals simp_all

theorem load (holds : HoldsGenesis P S dir network format)
    (journal : dir .recoveryJournal = none) :
    (dir.loadOrNew P S env network).1 = .ok (Chain.newFair P network) ∧
      SameBut [.installId] dir (dir.loadOrNew P S env network).2 := by
  obtain ⟨untrusted, same⟩ := @untrusted P S dir network format env.draw holds
  have kept : HoldsGenesis P S (dir.isOwnFileTrusted S env.draw).2 network format := by
    refine holds.congr fun name member => same name ?_
    rintro isId
    obtain rfl := List.mem_singleton.mp isId
    revert member
    decide
  obtain ⟨record, read, sameNetwork, -, archive, first, -⟩ := kept.record
  have files : (dir.isOwnFileTrusted S env.draw).2.loadFiles P S env network false =
      .ok (Chain.newFair P network) := by
    have empty : S.readBlocks (dir.isOwnFileTrusted S env.draw).2.format
        (((dir.isOwnFileTrusted S env.draw).2 (dir.isOwnFileTrusted S env.draw).2.blocksPath).getD
          []) = some [] := by
      rw [kept.format_eq, kept.blocksPath_eq]
      cases format <;> rfl
    exact loadFiles_archive read archive first empty rfl nofun rfl
      (Chain.verifySupply_newFair network)
  have known : (dir.readMeta S).filter (fun record => record.network ≠ network) = none := by
    obtain ⟨record, read, sameNetwork, -⟩ := holds.record
    rw [read, Option.filter_eq_none_iff]
    simp [sameNetwork]
  unfold loadOrNew
  rw [interruptedRecovery, journal, holds.blocksPath_eq, if_neg (by simp), if_neg (by simp),
    if_neg (by simp), known]
  simp only [holds.repair, untrusted]
  exact ⟨files, same⟩

/-- A load leaves the chain files alone. -/
theorem loaded (holds : HoldsGenesis P S dir network format) :
    HoldsGenesis P S (dir.loadOrNew P S env network).2 network format := by
  refine holds.congr fun name member => ?_
  by_cases interrupted : dir.interruptedRecovery
  · unfold loadOrNew
    rw [if_pos interrupted]
  · refine (@load P S dir network format env holds ?_).2 name ?_
    · simpa [interruptedRecovery] using interrupted
    · rintro isId
      obtain rfl := List.mem_singleton.mp isId
      revert member
      decide

theorem verifies (holds : HoldsGenesis P S dir network format) :
    verifyFreshDatadir P S dir network format = .ok () := by
  obtain ⟨record, read, -, -, -, -, count, genesis, tip⟩ := holds.record
  have peeked : dir.peekMeta S = some (0, record.validatedTip, (genesisHash P network).toHex) := by
    rw [peekMeta, read, Option.filter_some_pos (by simpa using tip), Option.map_some, count,
      genesis]
  simp [verifyFreshDatadir, peeked, holds.format_eq, Guard.need, Guard.refuse]

theorem freshGenesis (holds : HoldsGenesis P S dir network format)
    (journal : dir .recoveryJournal = none) : dir.FreshGenesis P S network format where
  sameFormat := holds.format_eq
  files _ member := holds.files member
  loads _ := (holds.load journal).1

end HoldsGenesis

/-- A directory that a fresh genesis can be saved to. -/
structure Bare (dir : Datadir) (format : Format) : Prop where
  sameFormat : dir.format = format
  bodies : dir dir.blocksPath = none ∨ dir dir.blocksPath = some []
  journal : dir .recoveryJournal = none
  others : ∀ name ∈ chainFiles, name ≠ format.fileName → dir name = none

/-- The metadata of a fresh genesis beside its empty chain file. -/
theorem holdsGenesis_writeMeta (sameFormat : dir.format = format)
    (bodies : dir dir.blocksPath = some []) (journal : dir .recoveryJournal = none)
    (others : ∀ name ∈ chainFiles, name ≠ format.fileName → dir name = none) :
    (dir.after (dir.writeMeta S draw (Chain.newFair P network)).effects).HoldsGenesis P S network
        format ∧
      dir.after (dir.writeMeta S draw (Chain.newFair P network)).effects .recoveryJournal =
        none := by
  have kept : SameBut [.installId, .temporary .chainMeta, .chainMeta] dir
      (dir.after (dir.writeMeta S draw (Chain.newFair P network)).effects) :=
    sameBut_after names_writeMeta
  refine ⟨⟨?_, ⟨dir.metaOf (dir.installId draw).1 (Chain.newFair P network), ?_, rfl, ?_, rfl, rfl,
    rfl, rfl, Bytes32.toHex_ne_nil _⟩, ?_⟩, (kept _ (by simp)).trans journal⟩
  · rw [kept _ (by cases format <;> decide), ← bodies, blocksPath, sameFormat]
  · have shape : dir.after (dir.writeMeta S draw (Chain.newFair P network)).effects =
        (dir.after (dir.installId draw).2).after (replace (.temporary .chainMeta) .chainMeta
          (S.metaJson (dir.metaOf (dir.installId draw).1 (Chain.newFair P network)))) :=
      after_concat _ _ _
    rw [readMeta, shape, after, run_replace_self (by simp)]
    exact S.metaOfJson_metaJson _
  · simp [metaOf, sizeOf, bodies]
  · intro name member noBodies notMeta
    rw [kept name ?_, others name member noBodies]
    revert member notMeta
    cases name <;> simp [chainFiles]

/-- The first save of a fresh genesis. -/
theorem Bare.save (bare : dir.Bare format) :
    (dir.save S draw (Chain.newFair P network)).verdict = .ok () ∧
      (dir.after (dir.save S draw (Chain.newFair P network)).effects).HoldsGenesis P S network
        format ∧
      dir.after (dir.save S draw (Chain.newFair P network)).effects .recoveryJournal = none := by
  have noMeta : dir .chainMeta = none :=
    bare.others _ (by decide) (fileName_ne_chainMeta format).symm
  have noRecord : dir.readMeta S = none := by
    simp [readMeta, noMeta]
  have written : (S.writeBlocks dir.format (Chain.newFair P network).blocks).2 = true := rfl
  change (dir.saveArchive S draw (Chain.newFair P network)).verdict = _ ∧
    (dir.after (dir.saveArchive S draw (Chain.newFair P network)).effects).HoldsGenesis P S
      network format ∧ dir.after (dir.saveArchive S draw _).effects _ = _
  rcases bare.bodies with missing | empty
  · have anew : dir.savesAnew S (Chain.newFair P network) = true := by
      simp [savesAnew, missing]
    obtain ⟨done, bodies⟩ := rewriteBodies_writes written
    obtain ⟨verdict, left⟩ := @after_thenMeta P S dir draw _ _ done
    rw [saveArchive, if_pos anew, left]
    refine ⟨verdict, holdsGenesis_writeMeta ?_ ?_ ?_ ?_⟩
    · rw [rewriteBodies_of_written written]
      have replaced := @after_replace_blocks dir
        (S.encode dir.format (Chain.newFair P network).blocks)
      rw [replaced.format (by simp) (by simp), format_withBlocks, bare.sameFormat]
    · rw [bodies.bodies]
      rfl
    · rw [bodies.same _ (by simp), bare.journal]
    · intro name member noBodies
      rw [← bare.others name member noBodies, rewriteBodies_of_written written, after,
        run_replace temporary_ne_blocksPath.symm]
      have noTemporary : name ≠ .temporary dir.blocksPath := by
        rintro rfl
        simp [chainFiles] at member
      have noPath : name ≠ dir.blocksPath := by
        rw [blocksPath, bare.sameFormat]
        exact noBodies
      rw [Function.update_of_ne noTemporary, put_of_ne noPath]
  · have append : dir.savesAnew S (Chain.newFair P network) = false := by
      simp [savesAnew, empty, storedBlockCount, noRecord]
    have count : dir.storedBlockCount S = (Chain.newFair P network).blockCount := by
      simp [storedBlockCount, noRecord, Chain.blockCount, Chain.newFair]
    rw [saveArchive, if_neg (by simp [append]), if_pos count]
    exact ⟨rfl, holdsGenesis_writeMeta bare.sameFormat empty bare.journal bare.others⟩

end Datadir

section Staging

variable {P : Primitives} {S : Serde} {env : RecoverEnv} {dir tree : Datadir}
  {network : NetworkId} {format : Format}

theorem bare_stagingShape (dir : Datadir) (format : Format) :
    (stagingShape dir format).Bare format := by
  let copied : Datadir :=
    (dir .installId).elim (fun _ => none : Datadir) (put (fun _ => none) .installId)
  have absent (name : FileName) (notId : name ≠ .installId) : copied name = none := by
    simp only [copied]
    cases dir .installId with
    | none => rfl
    | some id => exact put_of_ne notId
  have notId (name : FileName) (member : name ∈ chainFiles) : name ≠ .installId := by
    rintro rfl
    simp [chainFiles] at member
  cases format with
  | json =>
      change Datadir.Bare (put copied .blocksJsonl []) .json
      have json : Datadir.format (put copied .blocksJsonl []) = .json := by
        simp [Datadir.format, absent]
      refine ⟨json, .inr ?_, absent _ (by decide), ?_⟩
      · rw [Datadir.blocksPath, json]
        exact put_self
      · intro name member noBodies
        exact (put_of_ne noBodies).trans (absent name (notId name member))
  | binary =>
      change copied.Bare .binary
      have binary : copied.format = .binary := by
        simp [Datadir.format, absent]
      refine ⟨binary, .inl ?_, absent _ (by decide), ?_⟩
      · rw [Datadir.blocksPath, binary]
        exact absent _ (by decide)
      · exact fun name member _ => absent name (notId name member)

/-- What was built and verified are the files of a fresh genesis. -/
theorem buildAndVerifyFresh_holds
    (built : buildAndVerifyFresh P S env dir network format = (.ok (), tree)) :
    tree.HoldsGenesis P S network format := by
  have saved := (@Datadir.Bare.save P S _ network format env.saveDraw
    (bare_stagingShape dir format)).2.1
  have loaded := @Datadir.HoldsGenesis.loaded P S _ network format env.load saved
  unfold buildAndVerifyFresh at built
  simp only at built
  split at built
  · cases built
  · split at built
    · cases built
    · split at built
      · cases built
      · split at built
        · cases built
        · split at built
          · cases built
          · obtain rfl := (Prod.ext_iff.mp built).2
            exact loaded

/-- Nothing but an input/output error stops the staging. -/
theorem buildAndVerifyFresh_ok (P : Primitives) (S : Serde) (env : RecoverEnv) (dir : Datadir)
    (network : NetworkId) (format : Format) :
    (buildAndVerifyFresh P S env dir network format).1 = .ok () := by
  have bare := bare_stagingShape dir format
  obtain ⟨done, saved, journal⟩ := @Datadir.Bare.save P S _ network format env.saveDraw bare
  have loads := (@Datadir.HoldsGenesis.load P S _ network format env.load saved journal).1
  have loaded := (@Datadir.HoldsGenesis.loaded P S _ network format env.load saved).format_eq
  have clean : ¬((Chain.newFair P network).network ≠ network ∨
      (Chain.newFair P network).blockCount ≠ 0) := by
    simp [Chain.newFair, Chain.blockCount]
  unfold buildAndVerifyFresh
  simp only [bare.sameFormat, done, loads, loaded, ne_eq, not_true_eq_false, if_false, if_neg clean]

end Staging

end Nightfall
