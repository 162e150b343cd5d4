import Nightfall.Runtime.Recovery

/-!
# A recovery loses nothing

At every step of the exchange the originals are in their place or in the backup directory,
and the journal is there as long as the data directory is neither the old one nor a fresh
genesis.
-/

namespace Nightfall

open Files

/-! ## The exchange -/

section Layout

variable {P : Primitives} {S : Serde} {opts : RecoverOpts} {env : RecoverEnv} {disk : Disk}
  {stalled : Stalled} {reset : Reset}

/-- What the checks establish. -/
structure Accepted (opts : RecoverOpts) (disk : Disk) (stalled : Stalled) : Prop where
  network : stalled.network = opts.network
  format : stalled.format = (disk.folder .datadir).format
  present : stalled.present =
    chainFiles.filter fun name => (disk.folder .datadir name).isSome
  journal : disk.folder .datadir .recoveryJournal = none
  backup : stalled.backup ∉ disk.taken

theorem accepted_of_checkLayout (checked : checkLayout P S opts env disk = .ok stalled) :
    Accepted opts disk stalled := by
  simp only [checkLayout, Guard.bind_eq_ok, Guard.refuse_eq_ok, Guard.need_eq_ok,
    presentChainFiles, presentAmong_eq_ok, Except.ok.injEq, exists_const] at checked
  obtain ⟨-, -, -, present, ⟨-, found⟩, -, journal, content, -, identity, -, -, -, backup, drawn,
    rfl⟩ := checked
  refine ⟨rfl, rfl, found, ?_, uniqueDir_free drawn⟩
  rw [not_or, Datadir.interruptedRecovery] at journal
  simpa using journal.2

/-- Both new directories have names of their own. -/
theorem reset_free (free : stalled.reset env disk = some reset) :
    reset.toStalled = stalled ∧ reset.staging ≠ stalled.backup ∧ reset.staging ∉ disk.taken := by
  obtain ⟨staging, drawn, rfl⟩ := Option.map_eq_some_iff.mp free
  have fresh := uniqueDir_free drawn
  rw [List.mem_cons, not_or] at fresh
  exact ⟨rfl, fresh⟩

namespace Reset

variable {tree : Datadir} {files : Files.Tree (Place × FileName)} {name : FileName}

theorem backup_injective : Function.Injective fun name : FileName =>
    (Place.inside reset.backup, name) :=
  fun _ _ same => (Prod.ext_iff.mp same).2

theorem staging_injective : Function.Injective fun name : FileName =>
    (Place.inside reset.staging, name) :=
  fun _ _ same => (Prod.ext_iff.mp same).2

theorem datadir_injective : Function.Injective fun name : FileName => (Place.datadir, name) :=
  fun _ _ same => (Prod.ext_iff.mp same).2

theorem stage_datadir : (reset.stage disk tree).files (.datadir, name) =
    disk.folder .datadir name := by
  simp [stage, Disk.withDirectory, Disk.folder]

theorem stage_staging : (reset.stage disk tree).files (.inside reset.staging, name) =
    tree name := by
  simp [stage, Disk.withDirectory]

theorem stage_backup (differs : reset.staging ≠ reset.backup) :
    (reset.stage disk tree).files (.inside reset.backup, name) = none := by
  simp [stage, Disk.withDirectory, differs.symm]

/-- The files after the journal is written. -/
def marked (env : RecoverEnv) (disk : Disk) (reset : Reset) (tree : Datadir) :
    Files.Tree (Place × FileName) :=
  put (reset.stage disk tree).files (.datadir, .recoveryJournal) (reset.journalText env)

theorem marked_of_ne {key : Place × FileName} (differs : key ≠ (.datadir, .recoveryJournal)) :
    reset.marked env disk tree key = (reset.stage disk tree).files key :=
  put_of_ne differs

theorem mem_unmark {verdict : Except RecoverError Unit} {effect : Effect (Place × FileName)}
    (member : effect ∈ unmark verdict) : effect = .remove (.datadir, .recoveryJournal) := by
  cases verdict with
  | error error => contradiction
  | ok done => exact List.mem_singleton.mp member

theorem run_exchange : run (reset.stage disk tree).files (reset.exchange env tree) =
    run (run (run (reset.marked env disk tree) reset.backUp) (reset.install tree))
      reset.clearStaging := by
  rw [exchange, run_cons, run_append, run_append]
  rfl

theorem mem_staged : name ∈ staged tree ↔ name ∈ chainFiles ∧ (tree name).isSome := by
  have found : presentChainFiles (fun _ => none) tree =
      .ok (chainFiles.filter fun name => (tree name).isSome) :=
    presentAmong_eq_ok.mpr ⟨fun _ _ => rfl, rfl⟩
  rw [staged, found]
  simp [Except.toOption]

theorem nodup_staged (tree : Datadir) : (staged tree).Nodup := by
  have found : presentChainFiles (fun _ => none) tree =
      .ok (chainFiles.filter fun name => (tree name).isSome) :=
    presentAmong_eq_ok.mpr ⟨fun _ _ => rfl, rfl⟩
  rw [staged, found]
  exact List.Nodup.filter _ (by decide)

theorem ne_journal_of_mem_chainFiles (member : name ∈ chainFiles) : name ≠ .recoveryJournal := by
  rintro rfl
  simp [chainFiles] at member

section Moved

variable (accepted : Accepted opts disk reset.toStalled)

include accepted

theorem mem_present : name ∈ reset.present ↔
    name ∈ chainFiles ∧ (disk.folder .datadir name).isSome := by
  rw [accepted.present, List.mem_filter]

theorem nodup_present : reset.present.Nodup := by
  rw [accepted.present]
  exact List.Nodup.filter _ (by decide)

/-- After the moves out every original is in the backup directory. -/
theorem run_backUp (differs : reset.staging ≠ reset.backup) (member : name ∈ chainFiles) :
    run (reset.marked env disk tree) reset.backUp (.inside reset.backup, name) =
        disk.folder .datadir name ∧
      run (reset.marked env disk tree) reset.backUp (.datadir, name) = none := by
  have here (other : FileName) (member : other ∈ chainFiles) :
      reset.marked env disk tree (.datadir, other) = disk.folder .datadir other := by
    rw [marked_of_ne (by simpa using ne_journal_of_mem_chainFiles member), stage_datadir]
  by_cases present : name ∈ reset.present
  · obtain ⟨there, gone⟩ := @run_moves _ _ _ (reset.marked env disk tree)
      (fun name => (Place.datadir, name)) (fun name => (Place.inside reset.backup, name))
      reset.present name datadir_injective backup_injective (by simp) (nodup_present accepted)
      (fun other among => by
        obtain ⟨member, present⟩ := (mem_present accepted).mp among
        rw [here other member]
        exact present) present
    exact ⟨there.trans (here name member), gone⟩
  · have absent : disk.folder .datadir name = none := by
      rw [mem_present accepted, not_and, Bool.not_eq_true, Option.isSome_eq_false_iff,
        Option.isNone_iff_eq_none] at present
      exact present member
    have outside (other : FileName) (among : other ∈ reset.present) : name ≠ other := by
      rintro rfl
      exact present among
    constructor
    · rw [backUp, run_moves_of_notMem (by simp)
        (fun other among => by simpa using outside other among), absent,
        marked_of_ne (by simp), stage_backup differs]
    · rw [backUp, run_moves_of_notMem (fun other among => by simpa using outside other among)
        (by simp), here name member, absent]

/-- After the exchange the chain files are the staged ones and the backup holds the originals. -/
theorem run_exchange_chainFiles (differs : reset.staging ≠ reset.backup)
    (member : name ∈ chainFiles) :
    run (reset.stage disk tree).files (reset.exchange env tree) (.datadir, name) = tree name ∧
      run (reset.stage disk tree).files (reset.exchange env tree) (.inside reset.backup, name) =
        disk.folder .datadir name := by
  have clearing (key : Place × FileName) (elsewhere : key.1 ≠ .inside reset.staging) :
      ∀ effect ∈ reset.clearStaging, key ∉ effect.names := by
    intro effect among
    obtain ⟨other, -, rfl⟩ := List.mem_map.mp among
    rintro named
    obtain rfl := List.mem_singleton.mp named
    exact elsewhere rfl
  obtain ⟨saved, gone⟩ := @run_backUp _ env _ _ tree name accepted differs member
  have staging (other : FileName) :
      run (reset.marked env disk tree) reset.backUp (.inside reset.staging, other) =
        tree other := by
    rw [backUp, run_moves_of_notMem (by simp) (by simp [differs]), marked_of_ne (by simp),
      stage_staging]
  rw [run_exchange, run_of_notMem (clearing _ (by simp)),
    run_of_notMem (clearing _ (by simpa using differs.symm))]
  constructor
  · by_cases among : name ∈ staged tree
    · rw [install, (@run_moves _ _ _ (run (reset.marked env disk tree) reset.backUp)
        (fun name => (Place.inside reset.staging, name)) (fun name => (Place.datadir, name))
        (staged tree) name staging_injective datadir_injective (by simp) (nodup_staged tree)
        (fun other among => by
          rw [staging other]
          exact (mem_staged.mp among).2) among).1, staging name]
    · have absent : tree name = none := by
        rw [mem_staged, not_and, Bool.not_eq_true, Option.isSome_eq_false_iff,
          Option.isNone_iff_eq_none] at among
        exact among member
      rw [install, run_moves_of_notMem (by simp) (fun other inside => ?_), gone, absent]
      rintro same
      obtain rfl := (Prod.ext_iff.mp same).2
      exact among inside
  · rw [install, run_moves_of_notMem (by simp [differs.symm]) (by simp), saved]

/-- During the exchange an original is in its place or in the backup directory. -/
theorem interrupted_effects (differs : reset.staging ≠ reset.backup) (member : name ∈ chainFiles)
    {content : Bytes} (original : disk.folder .datadir name = some content)
    (interrupted : Interrupted (reset.stage disk tree).files (reset.effects P S env disk tree)
      files) :
    files (.datadir, name) = some content ∨ files (.inside reset.backup, name) = some content := by
  have notJournal : ((Place.datadir, name) : Place × FileName) ≠ (.datadir, .recoveryJournal) := by
    simpa using ne_journal_of_mem_chainFiles member
  have split : reset.effects P S env disk tree =
      [.write (.datadir, .recoveryJournal) (reset.journalText env)] ++ (reset.backUp ++
        (reset.install tree ++ (reset.clearStaging ++
          unmark (verifyFreshDatadir P S (reset.exchanged env disk tree) reset.network
            reset.format)))) := by
    simp only [effects, exchange, List.append_assoc, List.cons_append, List.nil_append]
  rw [split] at interrupted
  rcases interrupted_append.mp interrupted with early | later
  · left
    rw [early.of_notMem (by simpa [Effect.names] using notJournal), stage_datadir, original]
  · change Interrupted (reset.marked env disk tree) _ _ at later
    rcases interrupted_append.mp later with moving | moved
    · refine interrupted_moves datadir_injective backup_injective (by simp) moving ?_
      rw [marked_of_ne notJournal, stage_datadir, original]
    · right
      rw [← original, ← (@run_backUp _ env _ _ tree name accepted differs member).1]
      apply moved.of_notMem
      intro effect among
      rcases List.mem_append.mp among with installing | rest
      · obtain ⟨other, -, rfl⟩ := List.mem_map.mp installing
        simp [Effect.names, differs.symm]
      · rcases List.mem_append.mp rest with clearing | last
        · obtain ⟨other, -, rfl⟩ := List.mem_map.mp clearing
          simp [Effect.names, differs.symm]
        · rw [mem_unmark last]
          simp [Effect.names]

/-- No move takes the journal away. -/
theorem journal_notMem_drops :
    ∀ effect ∈ reset.backUp ++ reset.install tree ++ reset.clearStaging,
      (Place.datadir, FileName.recoveryJournal) ∉ effect.drops := by
  intro effect among
  rcases List.mem_append.mp among with moving | clearing
  · rcases List.mem_append.mp moving with out | back
    · obtain ⟨other, inside, rfl⟩ := List.mem_map.mp out
      have member := ((mem_present accepted).mp inside).1
      simpa [Effect.drops] using (ne_journal_of_mem_chainFiles member).symm
    · obtain ⟨other, -, rfl⟩ := List.mem_map.mp back
      simp [Effect.drops]
  · obtain ⟨other, -, rfl⟩ := List.mem_map.mp clearing
    simp [Effect.drops]

/-- The journal is there when everything is in its place. -/
theorem journal_exchange : (run (reset.stage disk tree).files (reset.exchange env tree)
    (.datadir, .recoveryJournal)).isSome := by
  rw [exchange, run_cons]
  refine (Interrupted.whole _ _).isSome (journal_notMem_drops accepted) ?_
  simp [Effect.apply]

/-- Until the journal is removed it is there, unless nothing was moved yet. -/
theorem interrupted_exchange
    (interrupted : Interrupted (reset.stage disk tree).files (reset.exchange env tree) files) :
    (files (.datadir, .recoveryJournal)).isSome ∨ files = (reset.stage disk tree).files := by
  cases interrupted with
  | stop => exact .inr rfl
  | torn part =>
      cases part
      exact .inl (by simp)
  | step later =>
      exact .inl (later.isSome (journal_notMem_drops accepted) (by simp [Effect.apply]))

end Moved

/-- A directory that was there before keeps its files. -/
theorem interrupted_elsewhere {directory : Bytes} (noBackup : directory ≠ reset.backup)
    (noStaging : directory ≠ reset.staging)
    (interrupted : Interrupted (reset.stage disk tree).files (reset.effects P S env disk tree)
      files) :
    files (.inside directory, name) = disk.folder (.inside directory) name := by
  have start : (reset.stage disk tree).files (.inside directory, name) =
      disk.folder (.inside directory) name := by
    simp [stage, Disk.withDirectory, Disk.folder, noBackup, noStaging]
  rw [← start]
  apply interrupted.of_notMem
  intro effect among
  rcases List.mem_append.mp among with exchanging | last
  · rcases List.mem_cons.mp exchanging with rfl | moving
    · simp [Effect.names]
    · rcases List.mem_append.mp moving with moving | clearing
      · rcases List.mem_append.mp moving with out | back
        · obtain ⟨other, -, rfl⟩ := List.mem_map.mp out
          simp [Effect.names, noBackup]
        · obtain ⟨other, -, rfl⟩ := List.mem_map.mp back
          simp [Effect.names, noStaging]
      · obtain ⟨other, -, rfl⟩ := List.mem_map.mp clearing
        simp [Effect.names, noStaging]
  · rw [mem_unmark last]
    simp [Effect.names]

end Reset

/-- The datadir is marked, untouched, or a complete fresh genesis with every original in the
backup directory. -/
def Stalled.FailsClosed (P : Primitives) (S : Serde) (disk left : Disk) (stalled : Stalled) :
    Prop :=
  (left.folder .datadir).RefusesAll P S ∨
    left.folder .datadir = disk.folder .datadir ∨
    (left.folder .datadir).FreshGenesis P S stalled.network (disk.folder .datadir).format ∧
      ∀ name ∈ chainFiles, left.folder (.inside stalled.backup) name = disk.folder .datadir name

/-- Once the journal is gone the datadir is a fresh genesis. -/
theorem Reset.completed (accepted : Accepted opts disk reset.toStalled)
    (differs : reset.staging ≠ reset.backup) {tree : Datadir}
    (holds : tree.HoldsGenesis P S reset.network reset.format) :
    let files := (Effect.remove (.datadir, .recoveryJournal)).apply
      (run (reset.stage disk tree).files (reset.exchange env tree))
    Datadir.FreshGenesis P S (fun name => files (.datadir, name)) reset.network
        (disk.folder .datadir).format ∧
      ∀ name ∈ chainFiles, files (.inside reset.backup, name) = disk.folder .datadir name := by
  have kept (key : Place × FileName) (differs : key ≠ (.datadir, .recoveryJournal)) :
      (Effect.remove (.datadir, .recoveryJournal)).apply
        (run (reset.stage disk tree).files (reset.exchange env tree)) key =
        run (reset.stage disk tree).files (reset.exchange env tree) key :=
    Effect.apply_of_notMem (by simpa [Effect.names] using differs)
  constructor
  · rw [← accepted.format]
    refine Datadir.HoldsGenesis.freshGenesis (holds.congr fun name member => ?_) ?_
    · exact (kept _ (by simpa using Reset.ne_journal_of_mem_chainFiles member)).trans
        (Reset.run_exchange_chainFiles accepted differs member).1
    · simp [Effect.apply]
  · intro name member
    exact (kept _ (by simp)).trans (Reset.run_exchange_chainFiles accepted differs member).2

theorem Reset.failsClosed (accepted : Accepted opts disk reset.toStalled)
    (differs : reset.staging ≠ reset.backup) {tree : Datadir}
    {files : Files.Tree (Place × FileName)}
    (holds : tree.HoldsGenesis P S reset.network reset.format)
    (interrupted : Interrupted (reset.stage disk tree).files (reset.effects P S env disk tree)
      files) :
    reset.toStalled.FailsClosed P S disk { reset.stage disk tree with files := files } := by
  have marked (journal : (files (.datadir, .recoveryJournal)).isSome) :
      reset.toStalled.FailsClosed P S disk { reset.stage disk tree with files := files } :=
    .inl (Datadir.refusesAll_of_journal journal)
  rcases interrupted_append.mp interrupted with exchanging | last
  · rcases Reset.interrupted_exchange accepted exchanging with journal | unchanged
    · exact marked journal
    · right
      left
      funext name
      change files (.datadir, name) = _
      rw [unchanged, Reset.stage_datadir]
  · cases verified : verifyFreshDatadir P S (reset.exchanged env disk tree) reset.network
      reset.format with
    | error error =>
        rw [verified, Reset.unmark, interrupted_nil] at last
        exact marked (last ▸ Reset.journal_exchange accepted)
    | ok done =>
        rw [verified, Reset.unmark] at last
        rcases last with _ | ⟨⟨⟩⟩ | finished
        · exact marked (Reset.journal_exchange accepted)
        · obtain rfl := interrupted_nil.mp finished
          exact .inr (.inr (Reset.completed accepted differs holds))

/-- Where no step fails, the recovery of an accepted layout gets to its end. -/
theorem recoverStalledFork_ok (checked : checkLayout P S opts env disk = .ok stalled)
    (free : stalled.reset env disk = some reset) :
    (recoverStalledFork P S opts env disk).1.isOk := by
  have accepted := accepted_of_checkLayout checked
  obtain ⟨rfl, differs, -⟩ := reset_free free
  cases built : buildAndVerifyFresh P S env (disk.folder .datadir) reset.network reset.format with
  | mk verdict tree =>
      have staged := buildAndVerifyFresh_ok P S env (disk.folder .datadir) reset.network
        reset.format
      rw [built] at staged
      obtain rfl : verdict = .ok () := staged
      have verifies : verifyFreshDatadir P S (reset.exchanged env disk tree) reset.network
          reset.format = .ok () :=
        Datadir.HoldsGenesis.verifies ((buildAndVerifyFresh_holds built).congr fun name member =>
          (Reset.run_exchange_chainFiles accepted differs member).1)
      simp only [recoverStalledFork, checked, free, built, verifies]
      rfl

/-- A run leaves what the whole list of its steps leaves. -/
theorem recoverStalledFork_leaves (checked : checkLayout P S opts env disk = .ok stalled) :
    stalled.Leaves P S env disk (recoverStalledFork P S opts env disk).2 := by
  cases free : stalled.reset env disk with
  | none =>
      simp only [recoverStalledFork, checked, free]
      exact .named
  | some reset =>
      cases built : buildAndVerifyFresh P S env (disk.folder .datadir) reset.network
          reset.format with
      | mk verdict tree =>
          cases verdict with
          | error error =>
              simp only [recoverStalledFork, checked, free, built]
              exact .unchanged
          | ok done =>
              have moved := Stalled.Leaves.moving free built (Interrupted.whole _ _)
              simp only [recoverStalledFork, checked, free, built]
              split
              · exact moved
              · exact moved

end Layout

namespace Sample

/-- A datadir whose metadata names the sample network. -/
def stalledDisk : Disk where
  usable := true
  taken := []
  special _ := none
  files := put (fun _ => none) (.datadir, .chainMeta) []

def recoverOpts : RecoverOpts where
  network := .devnet
  force := true

def recoverEnv : RecoverEnv where
  path := ascii "data"
  parseJson _ := some (.object [
    (ascii "network", NetworkId.devnet.toJson),
    (ascii "genesis_hash", .text (genesisHash primitives .devnet).toHex)])
  backupDraws := [(1, 0)]
  stagingDraws := [(2, 1)]
  saveDraw := []
  load := ⟨0, 0, []⟩
  startedUnix := 3

/-- The layout that is accepted. -/
noncomputable def stalledLayout : Stalled where
  network := .devnet
  format := .binary
  present := [.chainMeta]
  previousHeight := (((stalledDisk.folder .datadir).peekMeta serde).map fun found => found.1).getD 0
  previousTip := ((stalledDisk.folder .datadir).peekMeta serde).map fun found => found.2.1
  backup := ascii "recovery-backup-1-0"

theorem readMetaIdentity_recoverEnv : readMetaIdentity recoverEnv [] =
    .ok (.devnet, (genesisHash primitives .devnet).toHex) := by
  have named : (some (genesisHash primitives .devnet).toHex).filter (· ≠ []) =
      some (genesisHash primitives .devnet).toHex :=
    Option.filter_some_pos (by simpa using Bytes32.toHex_ne_nil _)
  simp only [readMetaIdentity, Guard.bind_eq_ok, Guard.refuse_eq_ok, Guard.need_eq_ok]
  exact ⟨(), by decide, _, rfl, ascii "devnet", rfl, .devnet, by decide, _, named, rfl⟩

theorem checkLayout_stalledDisk :
    checkLayout primitives serde recoverOpts recoverEnv stalledDisk = .ok stalledLayout := by
  have journal : ¬(stalledDisk.special .recoveryJournal ≠ none ∨
      (stalledDisk.folder .datadir).interruptedRecovery = true) := by
    simp [stalledDisk, Disk.folder, Datadir.interruptedRecovery]
  have network : recoverOpts.network = .devnet := rfl
  simp only [checkLayout, Guard.bind_eq_ok, Guard.refuse_eq_ok, Guard.need_eq_ok,
    presentChainFiles, presentAmong_eq_ok]
  refine ⟨(), by decide, (), by decide, (), by decide, [.chainMeta], ⟨fun _ _ => rfl, by decide⟩,
    (), by decide, (), journal, [], rfl, _, readMetaIdentity_recoverEnv, (), by decide, (),
    fun differs => differs (by rw [network]), ascii "recovery-backup-1-0", by decide, rfl⟩

end Sample

end Nightfall
