import Nightfall.Library.GuardedRun
import Nightfall.Wallet.VaultCommits
import Nightfall.Wallet.VaultSample

/-!
# The wallet that a disk holds

What the owner has on disk is nothing, a legacy wallet or a sealed one.  Every call of a
store settles on the wallet before it or on the one it is asked for, whatever access fails
and wherever the process stops; an acknowledged call settles on the one it is asked for.
-/

namespace Nightfall

open Faulty (Program Fate Ending Triple)

variable {P : Primitives}

/-- What the owner of a wallet has on disk. -/
inductive Durable (P : Primitives) where
  | nothing
  | legacy (wallet : Wallet P)
  | sealed (wallet : Wallet P) (password : Text)

/-- What the owner has after an edit that was committed. -/
def Durable.edited {α : Type} (edit : VaultStore.Edit P α) : Durable P → Durable P
  | .sealed wallet password =>
      match edit wallet with
      | some (_, after) => .sealed after.restoredForm password
      | none => .sealed wallet password
  | durable => durable

/-- What the owner has after a change of the password. -/
def Durable.withPassword (password : Text) : Durable P → Durable P
  | .sealed wallet _ => .sealed wallet password
  | durable => durable

/-- What the owner has after a legacy wallet was imported. -/
def Durable.migrated (password : Text) : Durable P → Durable P
  | .legacy wallet => .sealed wallet password
  | durable => durable

namespace VaultStore

/-- The plain files are a legacy wallet. -/
structure LegacyHolds (host : VaultHost) (network : NetworkId) (files : Files.Tree VaultFile)
    (wallet : Wallet P) : Prop where
  unfinished : files .databaseTemporary = none
  seed : ∃ content, files .seed = some content ∧ content.length ≤ maxSeedBytes ∧
    parseSeed P content = .ok wallet.keys
  database : files .database = none ∧ wallet = inMemory network wallet.keys 0 ∨
    ∃ content db, files .database = some content ∧
      content.length ≤ host.code.maxPlaintextBytes ∧ parseDatabase host content = .ok db ∧
      wallet = { inMemory network wallet.keys 0 with db := db }

/-- What is left of the plain files is of the wallet. -/
structure LegacyAgrees (host : VaultHost) (files : Files.Tree VaultFile) (wallet : Wallet P) :
    Prop where
  unfinished : files .databaseTemporary = none
  seedSize : ∀ content, files .seed = some content → content.length ≤ maxSeedBytes
  databaseSize : ∀ content, files .database = some content →
    content.length ≤ host.code.maxPlaintextBytes
  seed : checkSeed wallet (files .seed) = .ok ()
  database : checkDatabase host wallet (files .database) = .ok ()

/-- The files hold what the owner has. -/
inductive Carries (host : VaultHost) (network : NetworkId) (files : Files.Tree VaultFile) :
    Durable P → Prop where
  | nothing (seed : files .seed = none) (database : files .database = none)
      (unfinished : files .databaseTemporary = none) (snapshot : files .snapshot = none) :
      Carries host network files .nothing
  | legacy {wallet : Wallet P} (snapshot : files .snapshot = none)
      (holds : LegacyHolds host network files wallet) :
      Carries host network files (.legacy wallet)
  | sealed {wallet : Wallet P} {password : Text} {bytes : Bytes}
      (snapshot : files .snapshot = some bytes)
      (unseals : Vault.Unseals host.code network bytes wallet password)
      (agrees : LegacyAgrees host files wallet) :
      Carries host network files (.sealed wallet password)

/-- The store knows the snapshot, and its session is on what the owner has. -/
structure Fits (host : VaultHost) (durable : Durable P) (store : VaultStore P) : Prop where
  disk : store.disk = store.files .snapshot
  session : ∀ vault, store.session = some vault → store.files .snapshot = some vault.sealed
  opened : ∀ vault opened, store.session = some vault → vault.unlocked = some opened →
    ∃ wallet password, durable = .sealed wallet password ∧
      opened.OpensWith host.code store.network password ∧ opened.wallet.restoredForm = wallet

/-- The files hold what the owner has, and a usable store fits them. -/
structure Consistent (host : VaultHost) (durable : Durable P) (store : VaultStore P) : Prop where
  carries : Carries host store.network store.files durable
  fits : store.unusable = false → store.Fits host durable

section Files

variable {host : VaultHost} {network : NetworkId} {files left : Files.Tree VaultFile}
  {durable : Durable P} {start store : VaultStore P} {wallet : Wallet P}

theorem Carries.of_permanent (carries : Carries host network files durable)
    (same : ∀ name, name.Permanent → left name = files name) :
    Carries host network left durable := by
  have seed := same .seed trivial
  have database := same .database trivial
  have unfinished := same .databaseTemporary trivial
  have snapshot := same .snapshot trivial
  cases carries with
  | nothing noSeed noDatabase noUnfinished noSnapshot =>
      exact .nothing (seed.trans noSeed) (database.trans noDatabase)
        (unfinished.trans noUnfinished) (snapshot.trans noSnapshot)
  | legacy noSnapshot holds =>
      refine .legacy (snapshot.trans noSnapshot) ⟨unfinished.trans holds.unfinished, ?_, ?_⟩
      · rw [seed]
        exact holds.seed
      · rw [database]
        exact holds.database
  | sealed present unseals agrees =>
      refine .sealed (snapshot.trans present) unseals
        ⟨unfinished.trans agrees.unfinished, ?_, ?_, ?_, ?_⟩
      · rw [seed]
        exact agrees.seedSize
      · rw [database]
        exact agrees.databaseSize
      · rw [seed]
        exact agrees.seed
      · rw [database]
        exact agrees.database

theorem Carries.kept (carries : Carries host start.network start.files durable)
    (kept : Kept start store) : Carries host store.network store.files durable := by
  rw [kept.network]
  exact carries.of_permanent kept.files

theorem Fits.kept (fits : start.Fits host durable) (kept : Kept start store) :
    store.Fits host durable := by
  have snapshot := kept.files .snapshot trivial
  refine ⟨?_, ?_, ?_⟩
  · rw [kept.disk, snapshot]
    exact fits.disk
  · rw [kept.session, snapshot]
    exact fits.session
  · rw [kept.session, kept.network]
    exact fits.opened

theorem Consistent.kept (consistent : Consistent host durable start) (kept : Kept start store) :
    Consistent host durable store :=
  ⟨consistent.carries.kept kept, fun usable =>
    (consistent.fits (kept.unusable ▸ usable)).kept kept⟩

/-- Nothing is asked of a store that has to be opened again. -/
theorem Consistent.of_unusable (carries : Carries host store.network store.files durable)
    (unusable : store.unusable = true) : Consistent host durable store :=
  ⟨carries, fun usable => by simp [unusable] at usable⟩

theorem legacyTombstone_length : legacyTombstone.length ≤ maxSeedBytes := by
  decide +kernel

/-- Files that were retired agree with every wallet. -/
theorem legacyAgrees_of_retired (database : files .database = none)
    (unfinished : files .databaseTemporary = none)
    (seed : files .seed = some legacyTombstone ∨ files .seed = none) :
    LegacyAgrees host files wallet := by
  refine ⟨unfinished, ?_, ?_, ?_, ?_⟩
  · intro content found
    rcases seed with marked | none
    · obtain rfl := Option.some.inj (marked.symm.trans found)
      exact legacyTombstone_length
    · cases none.symm.trans found
  · intro content found
    cases database.symm.trans found
  · rcases seed with marked | none
    · rw [marked, checkSeed, if_pos rfl]
    · rw [none, checkSeed]
  · rw [database, checkDatabase]

/-- A legacy wallet agrees with its own files. -/
theorem LegacyHolds.agrees (holds : LegacyHolds host network files wallet) :
    LegacyAgrees host files wallet.restoredForm := by
  obtain ⟨unfinished, ⟨content, seed, short, parsed⟩, database⟩ := holds
  refine ⟨unfinished, ?_, ?_, ?_, ?_⟩
  · intro other found
    obtain rfl := Option.some.inj (seed.symm.trans found)
    exact short
  · intro other found
    rcases database with ⟨none, -⟩ | ⟨content, db, present, short, -⟩
    · cases none.symm.trans found
    · obtain rfl := Option.some.inj (present.symm.trans found)
      exact short
  · rw [seed, checkSeed, parsed]
    split
    · rfl
    · simp [bind, Except.bind, Guard.refuse, Wallet.restoredForm, WalletKeys.fromSeed]
  · rcases database with ⟨none, -⟩ | ⟨content, db, present, -, read, same⟩
    · rw [none, checkDatabase]
    · rw [present, checkDatabase, read]
      have saved : wallet.restoredForm.db = db := by rw [same]; rfl
      simp [bind, Except.bind, Guard.refuse, saved]

theorem restored_of_legacyHolds (holds : LegacyHolds host network files wallet) :
    wallet.restoredForm = wallet ∧ wallet.network = network := by
  obtain ⟨-, ⟨content, -, -, parsed⟩, database⟩ := holds
  simp only [parseSeed, Guard.bind_eq_ok, Guard.refuse_eq_ok, Guard.need_eq_ok,
    Except.ok.injEq] at parsed
  obtain ⟨_, _, seed, _, keys⟩ := parsed
  have memory : wallet.storage = .memory ∧ wallet.network = network := by
    rcases database with ⟨-, same⟩ | ⟨_, _, -, -, -, same⟩
    · rw [same]
      exact ⟨rfl, rfl⟩
    · rw [same]
      exact ⟨rfl, rfl⟩
  refine ⟨Vault.restoredForm_of_restored ⟨memory.1, ?_⟩, memory.2⟩
  rw [← keys]
  rfl

end Files

/-! ## Operations -/

/-- After an error the owner has what was there before, or the store has to be opened again. -/
def Refused (host : VaultHost) (before after : Durable P) (store : VaultStore P) : Prop :=
  Consistent host before store ∨ store.unusable = true ∧ Consistent host after store

/-- After a stop the files hold what was there before or what was asked for. -/
def Stopped (host : VaultHost) (before after : Durable P) (store : VaultStore P) : Prop :=
  Carries host store.network store.files before ∨ Carries host store.network store.files after

section Operations

variable {host : VaultHost} {before after durable : Durable P} {start store : VaultStore P}
  {wallet : Wallet P} {password : Text} {draws : StoreDraws}

/-- What only looks at the store does no harm. -/
theorem quiet_of_consistent (consistent : Consistent host before start) :
    ∀ store, Kept start store → Refused host before after store ∧ Stopped host before after store :=
  fun _ kept => ⟨.inl (consistent.kept kept), .inl (consistent.carries.kept kept)⟩

/-- A snapshot that opens to a wallet makes it the wallet of the owner. -/
theorem carries_of_replaced {bytes : Bytes} (replaced : Replaced .snapshot bytes start store)
    (unseals : Vault.Unseals host.code start.network bytes wallet password)
    (agrees : LegacyAgrees host start.files wallet) :
    Carries host store.network store.files (.sealed wallet password) := by
  have seed := replaced.others .seed trivial (by decide)
  have database := replaced.others .database trivial (by decide)
  have unfinished := replaced.others .databaseTemporary trivial (by decide)
  refine .sealed replaced.content (replaced.network ▸ unseals)
    ⟨unfinished.trans agrees.unfinished, ?_, ?_, ?_, ?_⟩
  · rw [seed]
    exact agrees.seedSize
  · rw [database]
    exact agrees.databaseSize
  · rw [seed]
    exact agrees.seed
  · rw [database]
    exact agrees.database

/-- A sealed candidate is committed and becomes the session. -/
theorem triple_commit {α : Type} {result : α} {vault : Vault P} {opened : Unlocked P}
    (consistent : Consistent host before start)
    (seals : Vault.SealsAs host.code start.network vault opened wallet password)
    (agrees : LegacyAgrees host start.files wallet) :
    Triple (Kept start) (do
        persist host vault.sealed draws
        setSession vault
        pure result)
      (fun value store => value = result ∧ Consistent host (.sealed wallet password) store)
      (Refused host before (.sealed wallet password))
      (Stopped host before (.sealed wallet password)) := by
  have late : ∀ store, Replaced .snapshot vault.sealed start store →
      (store.unusable = true → Refused host before (.sealed wallet password) store) ∧
        Stopped host before (.sealed wallet password) store := by
    intro store replaced
    have carries := carries_of_replaced replaced seals.unseals agrees
    exact ⟨fun unusable => .inr ⟨unusable, .of_unusable carries unusable⟩, .inr carries⟩
  refine .bind (triple_persist (quiet_of_consistent consistent) late) fun _ => ?_
  refine .bind .change fun _ => .pure ?_
  rintro _ ⟨store, ⟨replaced, disk, usable⟩, rfl⟩
  have carries := carries_of_replaced replaced seals.unseals agrees
  refine ⟨rfl, carries, fun _ => ⟨disk.trans replaced.content.symm, ?_, ?_⟩⟩
  · rintro other same
    obtain rfl := Option.some.inj same
    exact replaced.content
  · rintro other session same unlocked
    obtain rfl := Option.some.inj same
    obtain rfl := Option.some.inj (seals.unlocked.symm.trans unlocked)
    refine ⟨wallet, password, rfl, ?_, seals.restored⟩
    show opened.OpensWith host.code store.network password
    rw [replaced.network]
    exact seals.opensWith

/-- An edit keeps the journal of swaps valid. -/
def KeepsJournal {α : Type} (host : VaultHost) (edit : Edit P α) : Prop :=
  ∀ wallet result after, edit wallet = some (result, after) →
    host.code.journalValid wallet.db.swapJournal = true →
      host.code.journalValid after.db.swapJournal = true

/-- The open session of a ready store, with what it is on. -/
theorem session_of_ready {vault : Vault P} {opened : Unlocked P}
    (consistent : Consistent host before start) (kept : Kept start store)
    (usable : store.unusable = false) (retired : store.Retired)
    (session : store.session = some vault) (unlocked : vault.unlocked = some opened) :
    (∃ wallet password, before = .sealed wallet password ∧
      opened.OpensWith host.code start.network password ∧ opened.wallet.restoredForm = wallet) ∧
      ∀ wallet : Wallet P, LegacyAgrees host start.files wallet := by
  have started : start.unusable = false := kept.unusable ▸ usable
  rw [kept.session] at session
  refine ⟨(consistent.fits started).opened vault opened session unlocked, fun wallet => ?_⟩
  have database := kept.files .database trivial
  have unfinished := kept.files .databaseTemporary trivial
  have seed := kept.files .seed trivial
  refine legacyAgrees_of_retired (database.symm.trans retired.database)
    (unfinished.symm.trans retired.unfinished) ?_
  rw [← seed]
  exact retired.seed.imp id And.left

/-- An edit is committed with its result, or it leaves no result. -/
theorem triple_update {α : Type} {edit : Edit P α} (sound : host.code.Sound)
    (consistent : Consistent host before start) (journal : KeepsJournal host edit) :
    Triple (Kept start) (update host edit draws)
      (fun result store => Consistent host (before.edited edit) store ∧
        ∃ wallet password after, before = .sealed wallet password ∧
          edit wallet = some (result, after))
      (Refused host before (before.edited edit)) (Stopped host before (before.edited edit)) := by
  have quiet := @quiet_of_consistent _ _ _ (before.edited edit) _ consistent
  refine .bind (triple_ready quiet) fun _ => ?_
  refine .bind (triple_currentSession fun store holds => quiet store holds.1) fun vault => ?_
  refine .bind (triple_ofVault fun store holds => (quiet store holds.1.1).1) fun candidate => ?_
  refine .bind (triple_ofVault fun store holds => (quiet store holds.1.1.1).1) fun copied => ?_
  refine .bind (.lift fun store holds => (quiet store holds.1.1.1.1).1) fun made => ?_
  obtain ⟨result, after⟩ := made
  refine .bind .read fun network => ?_
  refine .bind (.refuse fun store holds => (quiet store holds.1.1.1.1.1.1).1) fun _ => ?_
  refine .bind (triple_ofVault fun store holds => (quiet store holds.1.1.1.1.1.1.1).1)
    fun current => ?_
  refine .bind (.refuse fun store holds => (quiet store holds.1.1.1.1.1.1.1.1).1) fun _ => ?_
  refine .bind (triple_ofVault fun store holds => (quiet store holds.1.1.1.1.1.1.1.1.1).1)
    fun sealed => ?_
  refine .of_start fun store holds => ?_
  obtain ⟨⟨⟨⟨⟨⟨⟨⟨⟨⟨kept, usable, retired⟩, session⟩, copies⟩, copiedWallet⟩, edits⟩, rfl⟩,
    sameNetwork⟩, -⟩, -⟩, snapped⟩ := holds
  obtain ⟨opened, unlocked, valid, rfl⟩ := Vault.copySession_restored sound copies
  obtain ⟨⟨wallet, password, rfl, opensWith, rfl⟩, agrees⟩ :=
    session_of_ready consistent kept usable retired session unlocked
  obtain rfl : opened.wallet.restoredForm = copied := Except.ok.inj copiedWallet
  have known : edit opened.wallet.restoredForm = some (result, after) :=
    (Guard.need_eq_ok _ _ _).mp edits
  have next : ({ opened with wallet := after } : Unlocked P).OpensWith host.code start.network
      password :=
    ⟨opensWith.head, opensWith.key, journal _ _ _ known valid,
      (not_not.mp sameNetwork).trans kept.network⟩
  have seals := Vault.sealsAs_of_snapshot sound rfl next
    ((Guard.toExcept_eq_ok _ _).mp snapped)
  have target : (Durable.sealed opened.wallet.restoredForm password).edited edit =
      .sealed after.restoredForm password := by
    simp only [Durable.edited, known]
  rw [target]
  refine ((triple_commit consistent seals (agrees _)).strengthen fun other same => ?_).weaken ?_
  · rw [same]
    exact kept
  · rintro value other ⟨rfl, reached⟩
    exact ⟨reached, _, password, after, rfl, known⟩

/-- A new password is committed with the wallet as it was. -/
theorem triple_changePassword (sound : host.code.Sound)
    (consistent : Consistent host before start) :
    Triple (Kept start) (changePassword host password draws)
      (fun _ => Consistent host (before.withPassword password))
      (Refused host before (before.withPassword password))
      (Stopped host before (before.withPassword password)) := by
  have quiet := @quiet_of_consistent _ _ _ (before.withPassword password) _ consistent
  refine .bind (triple_ready quiet) fun _ => ?_
  refine .bind (triple_currentSession fun store holds => quiet store holds.1) fun vault => ?_
  refine .bind (triple_ofVault fun store holds => (quiet store holds.1.1).1) fun candidate => ?_
  refine .bind (triple_ofVault fun store holds => (quiet store holds.1.1.1).1) fun replaced => ?_
  refine .of_start fun store holds => ?_
  obtain ⟨⟨⟨⟨kept, usable, retired⟩, session⟩, copies⟩, changes⟩ := holds
  obtain ⟨opened, unlocked, valid, rfl⟩ := Vault.copySession_restored sound copies
  obtain ⟨⟨wallet, old, rfl, opensWith, rfl⟩, agrees⟩ :=
    session_of_ready consistent kept usable retired session unlocked
  obtain ⟨next, seals⟩ := Vault.sealsAs_of_changePassword sound rfl
    ((Guard.toExcept_eq_ok _ _).mp changes)
  have network : opened.wallet.restoredForm.network = start.network := opensWith.network
  rw [network] at seals
  refine ((triple_commit consistent seals (agrees _)).strengthen fun other same => ?_).weaken ?_
  · rw [same]
    exact kept
  · rintro value other ⟨-, reached⟩
    exact reached

/-- The owner has what was there before, or what was asked for. -/
def Either (host : VaultHost) (before after : Durable P) (store : VaultStore P) : Prop :=
  Consistent host before store ∨ Consistent host after store

theorem Refused.either (refused : Refused host before after store) :
    Either host before after store :=
  refused.imp id And.right

/-- A locked session on the snapshot fits whatever the owner has. -/
theorem Fits.locked (fits : store.Fits host durable) {vault : Vault P}
    (snapshot : store.files .snapshot = some vault.sealed) :
    ({ store with session := some vault.forgetUnlocked } : VaultStore P).Fits host durable where
  disk := fits.disk
  session other same := by
    obtain rfl := Option.some.inj same
    exact snapshot
  opened other opened same unlocked := by
    obtain rfl := Option.some.inj same
    cases unlocked

/-- A store without a snapshot has no session. -/
theorem session_eq_none (consistent : Consistent host before start)
    (usable : start.unusable = false) (empty : start.disk = none) :
    start.session = none ∧ start.files .snapshot = none := by
  have fits := consistent.fits usable
  have snapshot := fits.disk
  rw [empty] at snapshot
  refine ⟨?_, snapshot.symm⟩
  cases found : start.session with
  | none => rfl
  | some vault => cases snapshot.trans (fits.session vault found)

/-- The wallet is committed, and what was committed is read again. -/
theorem triple_install (sound : host.code.Sound) (consistent : Consistent host before start)
    (usable : start.unusable = false) (empty : start.disk = none)
    (network : wallet.network = start.network)
    (agrees : LegacyAgrees host start.files wallet.restoredForm) :
    Triple (Kept start) (install host wallet password draws)
      (fun _ store => Consistent host (.sealed wallet.restoredForm password) store ∧
        store.unusable = false)
      (Either host before (.sealed wallet.restoredForm password))
      (Stopped host before (.sealed wallet.restoredForm password)) := by
  have quiet : ∀ store, Kept start store →
      Either host before (.sealed wallet.restoredForm password) store ∧
        Stopped host before (.sealed wallet.restoredForm password) store :=
    fun store kept => ((quiet_of_consistent consistent) store kept).imp Refused.either id
  refine .bind (triple_ofVault fun store kept => (quiet store kept).1) fun candidate => ?_
  refine .of_start fun store holds => ?_
  obtain ⟨kept, created⟩ := holds
  obtain ⟨opened, seals⟩ := Vault.sealsAs_of_create sound created
  rw [network] at seals
  have late : ∀ store, Replaced .snapshot candidate.sealed start store →
      (store.unusable = true → Either host before (.sealed wallet.restoredForm password) store) ∧
        Stopped host before (.sealed wallet.restoredForm password) store := by
    intro store replaced
    have carries := carries_of_replaced replaced seals.unseals agrees
    exact ⟨fun unusable => .inr (.of_unusable carries unusable), .inr carries⟩
  have committed : ∀ store, Persisted candidate.sealed start store →
      Consistent host (.sealed wallet.restoredForm password) store ∧ store.unusable = false := by
    rintro store ⟨replaced, disk, known⟩
    have none := (session_eq_none consistent usable empty).1
    refine ⟨?_, known⟩
    refine ⟨carries_of_replaced replaced seals.unseals agrees, fun _ =>
      ⟨disk.trans replaced.content.symm, ?_, ?_⟩⟩
    · intro vault found
      cases (replaced.session.trans none).symm.trans found
    · intro vault _ found
      cases (replaced.session.trans none).symm.trans found
  refine .bind ((triple_persist quiet late).strengthen fun other same => same ▸ kept) fun _ => ?_
  refine .bind ((triple_verified host password fun store holds =>
    ⟨.inr holds.1, .inr holds.1.carries⟩).strengthen committed) fun result => ?_
  obtain ⟨reopened, saved⟩ := result
  refine .bind (.refuse fun store holds => .inr holds.1.1) fun _ => .modify ?_
  rintro store ⟨⟨⟨holds, known⟩, snapshot⟩, -⟩
  exact ⟨⟨holds.carries, fun usable => (holds.fits usable).locked snapshot⟩, known⟩

/-- The tombstone takes nothing away from a sealed wallet. -/
theorem carries_of_marked
    (carries : Carries host start.network start.files (.sealed wallet password))
    (replaced : Replaced .seed legacyTombstone start store) :
    Carries host store.network store.files (.sealed wallet password) := by
  have snapshot := replaced.others .snapshot trivial (by decide)
  have database := replaced.others .database trivial (by decide)
  have unfinished := replaced.others .databaseTemporary trivial (by decide)
  cases carries with
  | sealed present unseals agrees =>
      refine .sealed (snapshot.trans present) (replaced.network ▸ unseals)
        ⟨unfinished.trans agrees.unfinished, ?_, ?_, ?_, ?_⟩
      · intro content found
        obtain rfl := Option.some.inj (replaced.content.symm.trans found)
        exact legacyTombstone_length
      · rw [database]
        exact agrees.databaseSize
      · rw [replaced.content, checkSeed, if_pos rfl]
      · rw [database]
        exact agrees.database

theorem Fits.marked (fits : start.Fits host durable) (marked : Marked start store) :
    store.Fits host durable := by
  have snapshot := marked.replaced.others .snapshot trivial (by decide)
  refine ⟨?_, ?_, ?_⟩
  · rw [marked.disk, snapshot]
    exact fits.disk
  · rw [marked.replaced.session, snapshot]
    exact fits.session
  · rw [marked.replaced.session, marked.replaced.network]
    exact fits.opened

/-- The plain files are being retired.  The store is not used before that is done. -/
structure Retiring (host : VaultHost) (wallet : Wallet P) (password : Text)
    (disk : Option Bytes) (store : VaultStore P) : Prop where
  carries : Carries host store.network store.files (.sealed wallet password)
  unusable : store.unusable = true
  fits : store.Fits host (.sealed wallet password)
  known : store.disk = disk

section Retirement

variable {disk : Option Bytes} {error stop : VaultStore P → Prop}

theorem Retiring.consistent (retiring : Retiring host wallet password disk store) :
    Consistent host (.sealed wallet password) store :=
  .of_unusable retiring.carries retiring.unusable

theorem Retiring.kept (retiring : Retiring host wallet password disk start)
    (kept : Kept start store) : Retiring host wallet password disk store :=
  ⟨retiring.carries.kept kept, kept.unusable.trans retiring.unusable, retiring.fits.kept kept,
    kept.disk.trans retiring.known⟩

theorem Retiring.marked (retiring : Retiring host wallet password disk start)
    (marked : Marked start store) : Retiring host wallet password disk store :=
  ⟨carries_of_marked retiring.carries marked.replaced, marked.unusable.trans retiring.unusable,
    retiring.fits.marked marked, marked.disk.trans retiring.known⟩

theorem Fits.setUnusable (fits : store.Fits host durable) (unusable : Bool) :
    ({ store with unusable := unusable } : VaultStore P).Fits host durable :=
  ⟨fits.disk, fits.session, fits.opened⟩

/-- A retirement begins. -/
theorem Retiring.of_consistent (consistent : Consistent host (.sealed wallet password) store)
    (usable : store.unusable = false) :
    Retiring host wallet password store.disk { store with unusable := true } :=
  ⟨consistent.carries, rfl, (consistent.fits usable).setUnusable true, rfl⟩

theorem Retiring.done (retiring : Retiring host wallet password disk store) :
    Consistent host (.sealed wallet password) { store with unusable := false } :=
  ⟨retiring.carries, fun _ => retiring.fits.setUnusable false⟩

theorem triple_retireSeed
    (failed : ∀ store, Retiring host wallet password disk store → error store)
    (stopped : ∀ store, Carries host store.network store.files (.sealed wallet password) →
      stop store) :
    Triple (Retiring host wallet password disk) (writeTombstone draws)
      (fun _ => Retiring host wallet password disk) error stop := by
  refine .of_start fun store retiring => ?_
  have early : ∀ other, Kept store other → error other ∧ stop other := fun other kept =>
    ⟨failed other (retiring.kept kept), stopped other (retiring.kept kept).carries⟩
  refine ((triple_writeTombstone early (fun other marked => failed other (retiring.marked marked))
    fun other replaced => stopped other (carries_of_marked retiring.carries replaced)).strengthen
      fun other fixed => ?_).weaken fun _ other marked => retiring.marked marked
  rw [fixed]
  exact Kept.refl store

/-- The database may be gone. -/
theorem Retiring.withoutDatabase (retiring : Retiring host wallet password disk store)
    (fate : Fate) :
    Retiring host wallet password disk
      { store with files := Faulty.leaves (.remove .database) store.files fate } := by
  have others {name : VaultFile} (differs : name ≠ .database) :
      Faulty.leaves (.remove .database) store.files fate name = store.files name := by
    apply Faulty.leaves_of_notMem
    simpa [Files.Effect.names] using differs
  have database := Faulty.leaves_remove store.files .database fate
  have snapshot := others (by decide : VaultFile.snapshot ≠ .database)
  have seed := others (by decide : VaultFile.seed ≠ .database)
  have unfinished := others (by decide : VaultFile.databaseTemporary ≠ .database)
  refine ⟨?_, retiring.unusable, ⟨?_, ?_, retiring.fits.opened⟩, retiring.known⟩
  · cases retiring.carries with
    | sealed present unseals agrees =>
        have still : LegacyAgrees host (Faulty.leaves (.remove .database) store.files fate)
            wallet := by
          refine ⟨unfinished.trans agrees.unfinished, ?_, ?_, ?_, ?_⟩
          · rw [seed]
            exact agrees.seedSize
          · rcases database with same | gone
            · rw [same]
              exact agrees.databaseSize
            · rw [gone]
              intro content found
              cases found
          · rw [seed]
            exact agrees.seed
          · rcases database with same | gone
            · rw [same]
              exact agrees.database
            · rw [gone, checkDatabase]
        exact .sealed (snapshot.trans present) unseals still
  · exact retiring.fits.disk.trans snapshot.symm
  · intro vault found
    exact snapshot.trans (retiring.fits.session vault found)

theorem triple_removeDatabase
    (failed : ∀ store, Retiring host wallet password disk store → error store)
    (stopped : ∀ store, Carries host store.network store.files (.sealed wallet password) →
      stop store) :
    Triple (Retiring host wallet password disk) removeDatabase
      (fun _ => Retiring host wallet password disk) error stop := by
  have removes : Triple (Retiring host wallet password disk) (touch (.remove .database))
      (fun _ => Retiring host wallet password disk) error stop :=
    .perform (fun store holds => holds.withoutDatabase .works)
      (fun store part holds => failed _ (holds.withoutDatabase (.fails part)))
      fun store part holds => stopped _ (holds.withoutDatabase (.stops part)).carries
  exact .bind removes fun _ =>
    triple_access fun store holds => ⟨failed store holds, stopped store holds.carries⟩

end Retirement

/-- A new wallet is provisioned where there is none. -/
theorem triple_initializeVault (sound : host.code.Sound)
    (consistent : Consistent host before start) :
    Triple (Kept start) (initializeVault host wallet password draws)
      (fun _ => Consistent host (.sealed wallet.restoredForm password))
      (Either host before (.sealed wallet.restoredForm password))
      (Stopped host before (.sealed wallet.restoredForm password)) := by
  have quiet : ∀ store, Kept start store →
      Either host before (.sealed wallet.restoredForm password) store ∧
        Stopped host before (.sealed wallet.restoredForm password) store :=
    fun store kept => ((quiet_of_consistent consistent) store kept).imp Refused.either id
  refine .bind (triple_healthy quiet) fun _ => ?_
  refine .bind .read fun existing => ?_
  refine .bind (.refuse fun store holds => (quiet store holds.1.1).1) fun _ => ?_
  refine .bind (triple_needsLegacyRetirement fun store holds => quiet store holds.1.1.1)
    fun legacy => ?_
  refine .bind (.refuse fun store holds => (quiet store holds.1.1.1.1).1) fun _ => ?_
  refine .bind (triple_present fun store holds => quiet store holds.1.1.1.1.1) fun marked => ?_
  refine .bind (.refuse fun store holds => (quiet store holds.1.1.1.1.1.1).1) fun _ => ?_
  refine .bind .read fun network => ?_
  refine .bind (.refuse fun store holds => (quiet store holds.1.1.1.1.1.1.1.1).1) fun _ => ?_
  refine .of_start fun store holds => ?_
  obtain ⟨⟨⟨⟨⟨⟨⟨⟨⟨kept, usable⟩, rfl⟩, noSnapshot⟩, retired⟩, noLegacy⟩, rfl⟩, noSeed⟩, rfl⟩,
    sameNetwork⟩ := holds
  have retired := retired (by simpa using noLegacy)
  have empty : start.disk = none := by
    rw [← kept.disk]
    simpa [hasSnapshot] using noSnapshot
  have agrees : LegacyAgrees host start.files wallet.restoredForm := by
    have seed : store.files .seed = none := by simpa using noSeed
    refine legacyAgrees_of_retired ?_ ?_ (.inr ?_)
    · rw [← kept.files .database trivial, retired.database]
    · rw [← kept.files .databaseTemporary trivial, retired.unfinished]
    · rw [← kept.files .seed trivial, seed]
  have installs := @triple_install _ _ _ _ _ password draws sound consistent
    (kept.unusable ▸ usable) empty ((not_not.mp sameNetwork).trans kept.network) agrees
  refine .bind (installs.strengthen fun other same => same ▸ kept) fun _ => ?_
  refine .of_start fun store holds => ?_
  have begins : Triple (fun other => other = store) (setUnusable true)
      (fun _ => Retiring host wallet.restoredForm password store.disk)
      (Either host before (.sealed wallet.restoredForm password))
      (Stopped host before (.sealed wallet.restoredForm password)) := by
    refine .modify ?_
    rintro _ rfl
    exact .of_consistent holds.1 holds.2
  refine .bind begins fun _ => ?_
  refine .bind (triple_retireSeed (fun store retiring => .inr retiring.consistent)
    fun store carries => .inr carries) fun _ => ?_
  exact .modify fun store retiring => retiring.done

/-- What is read is the legacy wallet of the files. -/
theorem triple_readLegacy {pre error stop : VaultStore P → Prop}
    (quiet : ∀ store, pre store → error store ∧ stop store) :
    Triple pre (readLegacy host)
      (fun wallet store => pre store ∧ LegacyHolds host store.network store.files wallet)
      error stop := by
  refine .bind (triple_present quiet) fun unfinished => ?_
  refine .bind (.refuse fun store holds => (quiet store holds.1).1) fun _ => ?_
  refine .bind (triple_readRequired fun store holds => quiet store holds.1.1) fun content => ?_
  refine .bind (.lift fun store holds => (quiet store holds.1.1.1).1) fun keys => ?_
  refine .bind .read fun network => ?_
  refine .bind (triple_readOptional fun store holds => quiet store holds.1.1.1.1.1)
    fun database => ?_
  have finished {found : Option Bytes} (absent : ¬found.isSome = true) : found = none := by
    simpa using absent
  split
  · refine .pure ?_
    rintro store ⟨⟨⟨⟨⟨⟨holds, rfl⟩, absent⟩, seed, short⟩, parsed⟩, rfl⟩, none, -⟩
    exact ⟨holds, finished absent, ⟨content, seed, short, parsed⟩, .inl ⟨none.symm, rfl⟩⟩
  · next saved =>
      refine .bind (.lift fun store holds => (quiet store holds.1.1.1.1.1.1).1) fun db => .pure ?_
      rintro store ⟨⟨⟨⟨⟨⟨⟨holds, rfl⟩, absent⟩, seed, short⟩, parsed⟩, rfl⟩, present, size⟩, read⟩
      exact ⟨holds, finished absent, ⟨content, seed, short, parsed⟩,
        .inr ⟨saved, db, present.symm, size saved rfl, read, rfl⟩⟩

theorem LegacyHolds.unique {network : NetworkId} {files : Files.Tree VaultFile}
    {left right : Wallet P} (first : LegacyHolds host network files left)
    (second : LegacyHolds host network files right) : left = right := by
  obtain ⟨-, ⟨content, seed, -, parsed⟩, database⟩ := first
  obtain ⟨-, ⟨other, otherSeed, -, otherParsed⟩, otherDatabase⟩ := second
  obtain rfl := Option.some.inj (seed.symm.trans otherSeed)
  have keys : left.keys = right.keys := Except.ok.inj (parsed.symm.trans otherParsed)
  rcases database with ⟨none, same⟩ | ⟨saved, db, present, -, read, same⟩
  · rcases otherDatabase with ⟨-, otherSame⟩ | ⟨_, _, present, _⟩
    · rw [same, otherSame, keys]
    · cases none.symm.trans present
  · rcases otherDatabase with ⟨none, -⟩ | ⟨_, otherDb, otherPresent, -, otherRead, otherSame⟩
    · cases none.symm.trans present
    · obtain rfl := Option.some.inj (present.symm.trans otherPresent)
      obtain rfl := Except.ok.inj (read.symm.trans otherRead)
      rw [same, otherSame, keys]

/-- A legacy wallet is imported. -/
theorem triple_migrateLegacy (sound : host.code.Sound) (consistent : Consistent host before start) :
    Triple (Kept start) (migrateLegacy host password draws)
      (fun _ => Consistent host (before.migrated password))
      (Either host before (before.migrated password))
      (Stopped host before (before.migrated password)) := by
  have quiet : ∀ store, Kept start store → Either host before (before.migrated password) store ∧
      Stopped host before (before.migrated password) store :=
    fun store kept => ((quiet_of_consistent consistent) store kept).imp Refused.either id
  refine .bind (triple_healthy quiet) fun _ => ?_
  refine .bind .read fun existing => ?_
  refine .bind (.refuse fun store holds => (quiet store holds.1.1).1) fun _ => ?_
  refine .bind (triple_readLegacy fun store holds => quiet store holds.1.1.1) fun wallet => ?_
  refine .of_start fun store holds => ?_
  obtain ⟨⟨⟨⟨kept, usable⟩, rfl⟩, noSnapshot⟩, legacy⟩ := holds
  have started := kept.unusable ▸ usable
  have empty : start.disk = none := by
    rw [← kept.disk]
    simpa [hasSnapshot] using noSnapshot
  have snapshot : store.files .snapshot = none := by
    rw [kept.files .snapshot trivial]
    exact (session_eq_none consistent started empty).2
  obtain ⟨restored, network⟩ := restored_of_legacyHolds legacy
  have agrees : LegacyAgrees host start.files wallet.restoredForm := by
    have own := legacy.agrees
    refine ⟨?_, ?_, ?_, ?_, ?_⟩
    · rw [← kept.files .databaseTemporary trivial]
      exact own.unfinished
    · rw [← kept.files .seed trivial]
      exact own.seedSize
    · rw [← kept.files .database trivial]
      exact own.databaseSize
    · rw [← kept.files .seed trivial]
      exact own.seed
    · rw [← kept.files .database trivial]
      exact own.database
  have target : before.migrated password = .sealed wallet.restoredForm password := by
    cases consistent.carries.kept kept with
    | nothing noSeed _ _ _ =>
        obtain ⟨_, seed, -⟩ := legacy.seed
        cases noSeed.symm.trans seed
    | legacy _ holds => rw [Durable.migrated, holds.unique legacy, restored]
    | sealed present _ _ => cases snapshot.symm.trans present
  rw [target]
  refine ((@triple_install _ _ _ _ _ password draws sound consistent started empty
    (network.trans kept.network) agrees).strengthen fun other same => ?_).weaken
      fun _ _ holds => holds.1
  rw [same]
  exact kept

/-- The plain files are retired behind a snapshot. -/
theorem triple_finishLegacyRetirement (consistent : Consistent host before start) :
    Triple (Kept start) (finishLegacyRetirement host password draws)
      (fun _ => Consistent host before) (Consistent host before)
      (fun store => Carries host store.network store.files before) := by
  have quiet : ∀ store, Kept start store →
      Consistent host before store ∧ Carries host store.network store.files before :=
    fun store kept => ⟨consistent.kept kept, consistent.carries.kept kept⟩
  refine .bind (triple_healthy quiet) fun _ => ?_
  refine .bind (triple_checkDisk host fun store holds => quiet store holds.1) fun _ => ?_
  refine .bind (triple_present fun store holds => quiet store holds.1.1) fun unfinished => ?_
  refine .bind (.refuse fun store holds => (quiet store holds.1.1.1).1) fun _ => ?_
  refine .bind (triple_verified host password fun store holds => quiet store holds.1.1.1.1)
    fun result => ?_
  obtain ⟨opened, saved⟩ := result
  refine .bind (triple_readOptional fun store holds => quiet store holds.1.1.1.1.1)
    fun seed => ?_
  refine .bind (triple_readOptional fun store holds => quiet store holds.1.1.1.1.1.1)
    fun database => ?_
  refine .bind (.lift fun store holds => (quiet store holds.1.1.1.1.1.1.1).1) fun _ => ?_
  refine .bind (.lift fun store holds => (quiet store holds.1.1.1.1.1.1.1.1).1) fun _ => ?_
  refine .of_start fun store holds => ?_
  obtain ⟨⟨⟨⟨⟨⟨⟨⟨⟨kept, usable⟩, -⟩, -⟩, -⟩, snapshot⟩, -⟩, -⟩, -⟩, -⟩ := holds
  have here := consistent.kept kept
  cases here.carries with
  | nothing _ _ _ none => cases none.symm.trans snapshot
  | legacy none _ => cases none.symm.trans snapshot
  | @sealed wallet old _ present unseals agrees =>
      have disk : store.disk = some opened.sealed := (here.fits usable).disk.trans snapshot
      have begins : Triple (fun other => other = store) (setUnusable true)
          (fun _ => Retiring host wallet old (some opened.sealed))
          (Consistent host (.sealed wallet old))
          (fun store => Carries host store.network store.files (.sealed wallet old)) := by
        refine .modify ?_
        rintro _ rfl
        exact disk ▸ .of_consistent here usable
      have failed : ∀ store, Retiring host wallet old (some opened.sealed) store →
          Consistent host (.sealed wallet old) store := fun _ retiring => retiring.consistent
      have stopped : ∀ store : VaultStore P,
          Carries host store.network store.files (.sealed wallet old) →
            Carries host store.network store.files (.sealed wallet old) := fun _ carries => carries
      refine .bind begins fun _ => ?_
      refine .bind (.onlyIf (fun _ => triple_removeDatabase failed stopped)
        fun _ _ holds => holds) fun _ => ?_
      refine .bind (.onlyIf (fun _ => triple_retireSeed failed stopped)
        fun _ _ holds => holds) fun _ => ?_
      refine .bind (triple_access fun store holds => ⟨failed store holds, holds.carries⟩)
        fun _ => ?_
      refine .bind .change fun _ => .modify ?_
      rintro _ ⟨left, retiring, rfl⟩
      have snapshot : left.files .snapshot = some opened.sealed :=
        retiring.fits.disk.symm.trans retiring.known
      exact ⟨retiring.carries, fun _ => (retiring.fits.locked snapshot).setUnusable false⟩

/-- Of the passwords that are in use none but the right one opens the snapshot. -/
def Unmistaken (host : VaultHost) (passwords : List Text) (password : Text)
    (store : VaultStore P) : Prop :=
  ∀ bytes, store.files .snapshot = some bytes → ∀ other ∈ passwords, ∀ left right,
    Vault.openSealed P host.code bytes password store.network = .ok left →
      Vault.openSealed P host.code bytes other store.network = .ok right → left = right

/-- The password of the owner is one of those that are in use. -/
def UsesPassword (passwords : List Text) : Durable P → Prop
  | .sealed _ password => password ∈ passwords
  | _ => True

/-- A session is opened on what the owner has. -/
theorem triple_unlock {passwords : List Text} (consistent : Consistent host before start)
    (uses : UsesPassword passwords before) (unmistaken : Unmistaken host passwords password start) :
    Triple (Kept start) (unlock host password) (fun _ => Consistent host before)
      (Consistent host before) (fun store => Carries host store.network store.files before) := by
  have quiet : ∀ store, Kept start store →
      Consistent host before store ∧ Carries host store.network store.files before :=
    fun store kept => ⟨consistent.kept kept, consistent.carries.kept kept⟩
  refine .bind (triple_ready quiet) fun _ => ?_
  refine .bind (triple_checkDisk host fun store holds => quiet store holds.1) fun _ => ?_
  refine .bind (triple_currentSession fun store holds => quiet store holds.1.1) fun vault => ?_
  refine .bind .read fun network => ?_
  refine .bind (triple_ofVault fun store holds => (quiet store holds.1.1.1.1).1) fun opened => ?_
  refine .modify ?_
  rintro store ⟨⟨⟨⟨⟨kept, usable, -⟩, -⟩, session⟩, rfl⟩, unlocks⟩
  have here := consistent.kept kept
  have fits := here.fits usable
  have present := fits.session vault session
  obtain ⟨unlocked, made, same⟩ := Vault.unlock_eq_ok ((Guard.toExcept_eq_ok _ _).mp unlocks)
  refine ⟨here.carries, fun _ => ⟨fits.disk, ?_, ?_⟩⟩
  · intro other found
    obtain rfl := Option.some.inj found
    rw [same]
    exact present
  · intro other newly found isOpen
    obtain rfl := Option.some.inj found
    obtain rfl : unlocked = newly := by
      rw [same] at isOpen
      exact Option.some.inj isOpen
    cases here.carries with
    | nothing _ _ _ none => cases none.symm.trans present
    | legacy none _ => cases none.symm.trans present
    | @sealed wallet old bytes snapshot unseals _ =>
        obtain rfl := Option.some.inj (snapshot.symm.trans present)
        obtain ⟨right, opens, rfl⟩ := unseals
        have network := kept.network
        rw [network] at made opens
        obtain rfl := unmistaken _ ((kept.files .snapshot trivial).symm.trans snapshot) old uses
          unlocked right made opens
        obtain ⟨opensWith, restored⟩ := Vault.opensWith_of_openSealed opens
        refine ⟨unlocked.wallet, old, rfl, ?_, Vault.restoredForm_of_restored restored⟩
        show unlocked.OpensWith host.code store.network old
        rw [network]
        exact opensWith

theorem triple_lock (consistent : Consistent host before start)
    {error stop : VaultStore P → Prop} :
    Triple (Kept start) lock (fun _ => Consistent host before) error stop := by
  refine .modify ?_
  intro store kept
  have here := consistent.kept kept
  refine ⟨here.carries, fun usable => ?_⟩
  have fits := here.fits usable
  refine ⟨fits.disk, ?_, ?_⟩
  · intro vault found
    obtain ⟨session, present, rfl⟩ := Option.map_eq_some_iff.mp found
    exact fits.session session present
  · intro vault opened found unlocked
    obtain ⟨session, present, rfl⟩ := Option.map_eq_some_iff.mp found
    cases unlocked

/-- A store is opened on whatever the files hold. -/
theorem triple_openStore (carries : Carries host start.network start.files before) :
    Triple (Kept start) (openStore host)
      (fun _ store => Consistent host before store ∧ store.unusable = false)
      (fun store => Carries host store.network store.files before)
      (fun store => Carries host store.network store.files before) := by
  have quiet : ∀ store, Kept start store → Carries host store.network store.files before ∧
      Carries host store.network store.files before :=
    fun store kept => ⟨carries.kept kept, carries.kept kept⟩
  refine .bind (triple_access quiet) fun _ => ?_
  refine .bind (triple_readOptional quiet) fun disk => ?_
  refine .bind (triple_sessionOf host disk fun store holds => (quiet store holds.1).1)
    fun session => .modify ?_
  rintro store ⟨⟨kept, rfl, -⟩, known⟩
  have here := carries.kept kept
  refine ⟨⟨here, fun _ => ⟨rfl, ?_, ?_⟩⟩, rfl⟩
  · intro vault found
    exact (known vault found).1
  · intro vault opened found unlocked
    cases (known vault found).2.symm.trans unlocked

end Operations

/-! ## Calls -/

/-- What the owner asks for. -/
inductive Call (P : Primitives) where
  | openStore
  | initializeVault (wallet : Wallet P) (password : Text)
  | migrateLegacy (password : Text)
  | finishLegacyRetirement (password : Text)
  | unlock (password : Text)
  | lock
  | update (edit : Edit P Bytes)
  | changePassword (password : Text)

/-- A call with its draws, and what becomes of the accesses to files within it. -/
structure Request (P : Primitives) where
  call : Call P
  draws : StoreDraws
  fates : List Fate

/-- How a call ends for the one who asked.  An edit releases its result. -/
inductive Report where
  | acknowledged (result : Option Bytes)
  | refused
  | stopped
  deriving DecidableEq

namespace Call

/-- A call that releases nothing. -/
def silent (action : Action P Unit) : Action P (Option Bytes) := do
  action
  pure none

def program (host : VaultHost) (draws : StoreDraws) : Call P → Action P (Option Bytes)
  | openStore => silent (VaultStore.openStore host)
  | initializeVault wallet password =>
      silent (VaultStore.initializeVault host wallet password draws)
  | migrateLegacy password => silent (VaultStore.migrateLegacy host password draws)
  | finishLegacyRetirement password =>
      silent (VaultStore.finishLegacyRetirement host password draws)
  | unlock password => silent (VaultStore.unlock host password)
  | lock => silent VaultStore.lock
  | update edit => do
      let result ← VaultStore.update host edit draws
      pure (some result)
  | changePassword password => silent (VaultStore.changePassword host password draws)

/-- What the owner has when the call is carried out. -/
def target : Call P → Durable P → Durable P
  | initializeVault wallet password => fun _ => .sealed wallet.restoredForm password
  | migrateLegacy password => Durable.migrated password
  | update edit => Durable.edited edit
  | changePassword password => Durable.withPassword password
  | _ => id

/-- What a call that is carried out releases. -/
def answer : Call P → Durable P → Option Bytes
  | update edit, .sealed wallet _ => (edit wallet).map Prod.fst
  | _, _ => none

/-- The call makes the first snapshot. -/
def creates : Call P → Bool
  | initializeVault _ _ => true
  | migrateLegacy _ => true
  | _ => false

/-- What the caller has to see to: an edit keeps the journal valid, and no password opens
another wallet by accident. -/
def Admissible (host : VaultHost) (passwords : List Text) (store : VaultStore P) : Call P → Prop
  | initializeVault _ password => password ∈ passwords
  | migrateLegacy password => password ∈ passwords
  | unlock password => store.Unmistaken host passwords password
  | update edit => KeepsJournal host edit
  | changePassword password => password ∈ passwords
  | _ => True

/-- What the owner has after a call.  After an error with a usable store that is what was
there before, but for the verification of a first snapshot. -/
structure Settles (call : Call P) (report : Report) (store : VaultStore P)
    (before after : Durable P) : Prop where
  either : after = before ∨ after = call.target before
  acknowledged : ∀ result, report = .acknowledged result →
    result = call.answer before ∧ after = call.target before
  refused : report = .refused → store.unusable = false → call.creates = false → after = before

end Call

/-- Nothing is left of a store but its files. -/
def closed (store : VaultStore P) : VaultStore P :=
  { store with session := none, disk := none, unusable := true }

/-- Behind a stop, or when it could not be opened, a store has to be opened again. -/
def step (host : VaultHost) (store : VaultStore P) (request : Request P) :
    Report × VaultStore P :=
  match request.call.program host request.draws store request.fates with
  | (.done result, left, _) => (.acknowledged result, left)
  | (.failed _, left, _) =>
      match request.call with
      | .openStore => (.refused, left.closed)
      | _ => (.refused, left)
  | (.stopped, left, _) => (.stopped, left.closed)

/-- The store behind a request. -/
def next (host : VaultHost) (store : VaultStore P) (request : Request P) : VaultStore P :=
  (step host store request).2

/-- The files of a wallet, which nobody has opened. -/
def unopened (network : NetworkId) (files : Files.Tree VaultFile) : VaultStore P where
  files := files
  network := network
  session := none
  disk := none
  unusable := true

/-- What the owner has settles with every request. -/
inductive SettlesAlong (host : VaultHost) :
    VaultStore P → Durable P → List (Request P) → Durable P → Prop where
  | nil {store : VaultStore P} {durable : Durable P} : SettlesAlong host store durable [] durable
  | cons {store : VaultStore P} {before between after : Durable P} {request : Request P}
      {rest : List (Request P)}
      (settles : request.call.Settles (step host store request).1 (next host store request)
        before between)
      (others : SettlesAlong host (next host store request) between rest after) :
      SettlesAlong host store before (request :: rest) after

section Steps

variable {host : VaultHost} {passwords : List Text} {before : Durable P}
  {start : VaultStore P} {draws : StoreDraws} {call : Call P}

/-- What an error leaves. -/
def Failed (host : VaultHost) (call : Call P) (before : Durable P) (store : VaultStore P) : Prop :=
  Consistent host before store ∨
    (store.unusable = true ∨ call.creates = true) ∧ Consistent host (call.target before) store

theorem triple_silent {action : Action P Unit} {pre error stop : VaultStore P → Prop}
    {post : VaultStore P → Prop} (triple : Triple pre action (fun _ => post) error stop) :
    Triple pre (Call.silent action) (fun result store => result = none ∧ post store) error stop :=
  .bind triple fun _ => .pure fun _ holds => ⟨rfl, holds⟩

/-- Every call but the first settles on what it is asked for, or on what was there. -/
theorem triple_program (sound : host.code.Sound) (consistent : Consistent host before start)
    (uses : UsesPassword passwords before) (admissible : call.Admissible host passwords start)
    (later : call ≠ .openStore) :
    Triple (Kept start) (call.program host draws)
      (fun result store => result = call.answer before ∧
        Consistent host (call.target before) store)
      (Failed host call before) (Stopped host before (call.target before)) := by
  have first (creates : call.creates = true) (store : VaultStore P)
      (either : Either host before (call.target before) store) : Failed host call before store :=
    either.imp id fun holds => ⟨.inr creates, holds⟩
  have again (store : VaultStore P) (refused : Refused host before (call.target before) store) :
      Failed host call before store :=
    refused.imp id fun holds => ⟨.inl holds.1, holds.2⟩
  cases call with
  | openStore => exact absurd rfl later
  | initializeVault wallet password =>
      exact triple_silent ((triple_initializeVault sound consistent).mono (fun _ holds => holds)
        (fun _ _ holds => holds) (first rfl) fun _ holds => holds)
  | migrateLegacy password =>
      exact triple_silent ((triple_migrateLegacy sound consistent).mono (fun _ holds => holds)
        (fun _ _ holds => holds) (first rfl) fun _ holds => holds)
  | finishLegacyRetirement password =>
      exact triple_silent ((triple_finishLegacyRetirement consistent).mono (fun _ holds => holds)
        (fun _ _ holds => holds) (fun _ => .inl) fun _ => .inl)
  | unlock password =>
      exact triple_silent ((triple_unlock consistent uses admissible).mono (fun _ holds => holds)
        (fun _ _ holds => holds) (fun _ => .inl) fun _ => .inl)
  | lock => exact triple_silent (triple_lock consistent)
  | update edit =>
      refine .bind ((triple_update sound consistent admissible).mono (fun _ holds => holds)
        (fun _ _ holds => holds) again fun _ holds => holds) fun result => .pure ?_
      rintro store ⟨holds, wallet, password, after, rfl, edits⟩
      refine ⟨?_, holds⟩
      rw [Call.answer, edits]
      rfl
  | changePassword password =>
      exact triple_silent ((triple_changePassword sound consistent).mono (fun _ holds => holds)
        (fun _ _ holds => holds) again fun _ holds => holds)

theorem usesPassword_target (uses : UsesPassword passwords before)
    (admissible : call.Admissible host passwords start) :
    UsesPassword passwords (call.target before) := by
  cases call with
  | initializeVault wallet password => exact admissible
  | migrateLegacy password =>
      cases before with
      | nothing => exact uses
      | legacy wallet => exact admissible
      | sealed wallet old => exact uses
  | update edit =>
      cases before with
      | nothing => exact uses
      | legacy wallet => exact uses
      | sealed wallet old =>
          simp only [Call.target, Durable.edited]
          split <;> exact uses
  | changePassword password =>
      cases before with
      | nothing => exact uses
      | legacy wallet => exact uses
      | sealed wallet old => exact admissible
  | _ => exact uses

/-- Every call settles, whatever becomes of the accesses within it. -/
theorem settles_of_step (sound : host.code.Sound) (consistent : Consistent host before start)
    (uses : UsesPassword passwords before) {request : Request P}
    (admissible : request.call.Admissible host passwords start) :
    ∃ after, Consistent host after (step host start request).2 ∧ UsesPassword passwords after ∧
      request.call.Settles (step host start request).1 (step host start request).2 before
        after := by
  obtain ⟨call, draws, fates⟩ := request
  have usesTarget := usesPassword_target uses admissible
  by_cases opens : call = .openStore
  · subst opens
    have reached := triple_silent (triple_openStore consistent.carries) start fates
      (Kept.refl start)
    simp only [step, Call.program] at reached ⊢
    generalize Call.silent (VaultStore.openStore host) start fates = outcome at reached ⊢
    obtain ⟨ending, left, rest⟩ := outcome
    cases ending with
    | done result =>
        refine ⟨before, reached.2.1, uses, .inl rfl, fun _ same => ?_, fun _ _ _ => rfl⟩
        cases same
        exact ⟨reached.1, rfl⟩
    | failed error =>
        exact ⟨before, .of_unusable reached rfl, uses, .inl rfl, (fun _ same => by cases same),
          fun _ _ _ => rfl⟩
    | stopped =>
        exact ⟨before, .of_unusable reached rfl, uses, .inl rfl, (fun _ same => by cases same),
          fun _ _ _ => rfl⟩
  · have reached := @triple_program _ _ _ _ _ draws _ sound consistent uses admissible opens start
      fates (Kept.refl start)
    simp only [step] at reached ⊢
    generalize call.program host draws start fates = outcome at reached ⊢
    obtain ⟨ending, left, rest⟩ := outcome
    cases ending with
    | done result =>
        refine ⟨_, reached.2, usesTarget, .inr rfl, fun _ same => ?_, fun same => by cases same⟩
        cases same
        exact ⟨reached.1, rfl⟩
    | failed error =>
        have refused : ∀ answer : Report × VaultStore P, answer = (.refused, left) →
            ∃ after, Consistent host after answer.2 ∧ UsesPassword passwords after ∧
              call.Settles answer.1 answer.2 before after := by
          rintro _ rfl
          rcases reached with kept | ⟨either, changed⟩
          · exact ⟨before, kept, uses, .inl rfl, (fun _ same => by cases same), fun _ _ _ => rfl⟩
          · refine ⟨_, changed, usesTarget, .inr rfl, (fun _ same => by cases same),
              fun _ usable creates => ?_⟩
            rcases either with unusable | first
            · cases usable.symm.trans unusable
            · cases creates.symm.trans first
        cases call with
        | openStore => exact absurd rfl opens
        | _ => exact refused _ rfl
    | stopped =>
        rcases reached with kept | changed
        · exact ⟨before, .of_unusable kept rfl, uses, .inl rfl, (fun _ same => by cases same),
            fun _ _ _ => rfl⟩
        · exact ⟨_, .of_unusable changed rfl, usesTarget, .inr rfl, (fun _ same => by cases same),
            fun same => by cases same⟩

/-- What the owner has settles with every request of a run. -/
theorem settlesAlong_of_consistent (sound : host.code.Sound)
    (consistent : Consistent host before start) (uses : UsesPassword passwords before)
    {requests : List (Request P)}
    (admissible : GuardedRun.Along (next host)
      (fun store request => request.call.Admissible host passwords store) start requests) :
    ∃ after, SettlesAlong host start before requests after ∧
      Consistent host after (GuardedRun.run (next host) start requests) := by
  induction requests generalizing start before with
  | nil => exact ⟨before, .nil, consistent⟩
  | cons request rest ih =>
      obtain ⟨between, here, usesHere, settles⟩ :=
        settles_of_step sound consistent uses admissible.1
      obtain ⟨after, others, last⟩ := ih here usesHere admissible.2
      exact ⟨after, .cons settles others, last⟩

/-- Whatever fails and wherever the process stops, no change that was acknowledged is lost,
none that was refused cleanly is made, and the files hold the wallet of the last change. -/
theorem commits_of_run (sound : host.code.Sound) {network : NetworkId}
    {files : Files.Tree VaultFile} (carries : Carries host network files before)
    (uses : UsesPassword passwords before) {requests : List (Request P)}
    (admissible : GuardedRun.Along (next host)
      (fun store request => request.call.Admissible host passwords store)
      (unopened network files) requests) :
    ∃ after, SettlesAlong host (unopened network files) before requests after ∧
      Consistent host after (GuardedRun.run (next host) (unopened network files) requests) :=
  settlesAlong_of_consistent sound (.of_unusable carries rfl) uses admissible

/-- A wallet is provisioned and edited.  The process stops within a commit, and the store is
opened again. -/
def sampleRequests : List (Request Sample.primitives) :=
  [⟨.openStore, Sample.storeDraws, []⟩,
    ⟨.initializeVault Sample.wallet Sample.password, Sample.storeDraws, []⟩,
    ⟨.unlock Sample.password, Sample.storeDraws, []⟩,
    ⟨.update fun wallet => some ([7], { wallet with storage := .memory }), Sample.storeDraws,
      List.replicate 12 .works ++ [.stops 3]⟩,
    ⟨.openStore, Sample.storeDraws, []⟩,
    ⟨.unlock Sample.password, Sample.storeDraws, [.fails 0]⟩,
    ⟨.changePassword Sample.password, Sample.storeDraws, []⟩]

theorem commits_of_run_sample :
    ∃ after, SettlesAlong Sample.vaultHost (unopened .devnet fun _ => none) .nothing sampleRequests
        after ∧
      Consistent Sample.vaultHost after
        (GuardedRun.run (next Sample.vaultHost) (unopened .devnet fun _ => none)
          sampleRequests) := by
  have inUse : Sample.password ∈ [Sample.password] := List.mem_singleton_self _
  have unmistaken (store : VaultStore Sample.primitives) :
      store.Unmistaken Sample.vaultHost [Sample.password] Sample.password := by
    intro bytes _ other member left right opens again
    obtain rfl := List.mem_singleton.mp member
    exact Except.ok.inj (opens.symm.trans again)
  have uses : UsesPassword [Sample.password] (Durable.nothing (P := Sample.primitives)) := trivial
  refine commits_of_run Sample.vaultCode_sound (.nothing rfl rfl rfl rfl) uses ?_
  exact ⟨trivial, inUse, unmistaken _, fun _ _ _ _ _ => rfl, trivial, unmistaken _, inUse, trivial⟩

end Steps

end VaultStore

end Nightfall
