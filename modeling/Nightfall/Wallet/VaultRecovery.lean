import Nightfall.Wallet.VaultRun

/-!
# What the owner of a wallet gets back

From every store that holds a sealed wallet, whatever happened to it before, opening the
store, retiring what is left of the plain files and unlocking with the password gives the
wallet back.
-/

namespace Nightfall

open Faulty (Program Triple)
open Faulty.Program (Returns)

variable {P : Primitives}

namespace VaultStore

/-- What the owner calls to get the wallet. -/
def recover (host : VaultHost) (password : Text) (draws : StoreDraws) : Action P (Wallet P) := do
  openStore host
  finishLegacyRetirement host password draws
  unlock host password
  VaultStore.wallet

/-! ## Reading -/

section Reading

variable {host : VaultHost} {store : VaultStore P} {name : VaultFile} {max : Nat}
  {content : Bytes}

theorem returns_access : (access : Action P Unit).Returns store () store :=
  .perform

/-- A store with its files changed. -/
def after (store : VaultStore P) (effect : Files.Effect VaultFile) : VaultStore P :=
  { store with files := effect.apply store.files }

theorem returns_touch {effect : Files.Effect VaultFile} :
    (touch effect : Action P Unit).Returns store () (store.after effect) :=
  .perform

theorem returns_present :
    (present name : Action P Bool).Returns store (store.files name).isSome store :=
  .bind returns_access .read

theorem returns_readRequired (found : store.files name = some content)
    (short : content.length ≤ max) :
    (readRequired name max : Action P Bytes).Returns store content store := by
  refine .bind returns_access (.bind .read (.bind (.lift ?_) (.bind (.refuse ?_) .pure)))
  · rw [found]
    rfl
  · exact Nat.not_lt.mpr short

theorem returns_readOptional
    (short : ∀ content, store.files name = some content → content.length ≤ max) :
    (readOptional name max : Action P (Option Bytes)).Returns store (store.files name) store := by
  refine .bind returns_present ?_
  cases found : store.files name with
  | none => exact .pure
  | some content => exact .bind (returns_readRequired found (short content found)) .pure

theorem returns_healthy (usable : store.unusable = false) :
    (healthy : Action P Unit).Returns store () store :=
  .bind .read (.refuse (by simp [usable]))

theorem returns_ofVault {α : Type} {result : Except VaultError α} {value : α}
    (known : result = .ok value) : (ofVault result : Action P α).Returns store value store :=
  .lift (by rw [known]; rfl)

theorem returns_currentSession {vault : Vault P} (session : store.session = some vault) :
    (currentSession : Action P (Vault P)).Returns store vault store :=
  .bind .read (.lift (by rw [session]; rfl))

theorem returns_checkDisk (host : VaultHost) (same : store.disk = store.files .snapshot)
    (short : ∀ content, store.files .snapshot = some content →
      content.length ≤ Vault.maxVaultBytes host.code) :
    (checkDisk host : Action P Unit).Returns store () store :=
  .bind (returns_readOptional short) (.bind .read (.refuse (by simp [same])))

end Reading

/-- A store on a snapshot, with the legacy files retired. -/
structure Settled (bytes : Bytes) (network : NetworkId) (store : VaultStore P) : Prop where
  usable : store.unusable = false
  disk : store.disk = some bytes
  snapshot : store.files .snapshot = some bytes
  network : store.network = network
  database : store.files .database = none
  unfinished : store.files .databaseTemporary = none
  seed : store.files .seed = some legacyTombstone

section Recovery

variable {host : VaultHost} {network : NetworkId} {store : VaultStore P} {bytes : Bytes}
  {wallet : Wallet P} {password : Text} {opened : Unlocked P} {draws : StoreDraws}

theorem Settled.returns_ready (settled : Settled bytes network store) :
    (ready : Action P Unit).Returns store () store := by
  refine .bind (returns_healthy settled.usable) (.bind ?_ (.refuse Bool.false_ne_true))
  refine .bind returns_present ?_
  rw [settled.database]
  refine .bind returns_present ?_
  rw [settled.unfinished]
  have short : ∀ content, store.files .seed = some content → content.length ≤ maxSeedBytes := by
    intro content found
    obtain rfl := Option.some.inj (settled.seed.symm.trans found)
    exact legacyTombstone_length
  refine .bind (returns_readOptional short) ?_
  rw [settled.seed]
  have same : (legacyTombstone != legacyTombstone) = false := bne_self_eq_false _
  simp only [same]
  exact .pure

/-- The snapshot fits into the bound of the store. -/
theorem short_of_openSealed
    (opens : Vault.openSealed P host.code bytes password network = .ok opened)
    (snapshot : store.files .snapshot = some bytes) :
    ∀ content, store.files .snapshot = some content →
      content.length ≤ Vault.maxVaultBytes host.code := by
  intro content found
  obtain rfl := Option.some.inj (snapshot.symm.trans found)
  exact (Vault.fromBytes_of_openSealed opens).1

theorem returns_openStore
    (opens : Vault.openSealed P host.code bytes password network = .ok opened)
    (snapshot : store.files .snapshot = some bytes) :
    (openStore host).Returns store ()
      { store with
        session := some { sealed := bytes, unlocked := none }
        disk := some bytes
        unusable := false } := by
  refine .bind returns_access (.bind (returns_readOptional (short_of_openSealed opens snapshot)) ?_)
  rw [snapshot]
  have parsed := (Vault.fromBytes_of_openSealed opens).2
  exact .bind (.bind (returns_ofVault parsed) .pure) .modify

theorem returns_verified
    (opens : Vault.openSealed P host.code bytes password store.network = .ok opened)
    (snapshot : store.files .snapshot = some bytes) :
    (verified host password).Returns store
      ({ sealed := bytes, unlocked := some opened }, opened.wallet) store := by
  obtain ⟨short, parsed⟩ := Vault.fromBytes_of_openSealed opens
  refine .bind (returns_readRequired snapshot short) (.bind (returns_ofVault parsed) ?_)
  refine .bind .read (.bind (returns_ofVault ?_) (.bind (returns_ofVault ?_) .pure))
  · rw [Guard.toExcept_eq_ok]
    exact Vault.unlock_of_openSealed opens
  · rfl

theorem Marked.refl (seed : store.files .seed = some legacyTombstone) : Marked store store :=
  ⟨⟨seed, fun _ _ _ => rfl, rfl, rfl⟩, rfl, rfl⟩

/-- The tombstone is written when the name for it is free. -/
theorem returns_writeTombstone {random : Bytes} (drawn : draws.retirement = some random)
    (fresh : store.files (.retirement random) = none) :
    ∃ left, (writeTombstone draws).Returns store () left ∧ Marked store left := by
  have names : (ofVault (Guard.need draws.retirement .randomUnavailable) :
      Action P Bytes).Returns store random store :=
    returns_ofVault (by rw [drawn]; rfl)
  have created : (createPrivateNew (.retirement random) : Action P Unit).Returns store ()
      (store.after (.write (.retirement random) [])) :=
    .bind .read (.bind (.refuse (by simp [fresh])) returns_touch)
  have filled (mid : VaultStore P) : (commitTombstone random).Returns mid ()
      ((mid.after (.append (.retirement random) legacyTombstone)).after
        (.rename (.retirement random) .seed)) :=
    .bind returns_touch (.bind returns_access (.bind returns_touch returns_access))
  have writes : (writeTombstone draws).Returns store () _ :=
    .bind names (.bind created (.ensuring (filled _) returns_touch))
  have marks : Triple (Kept store) (writeTombstone draws) (fun _ => Marked store)
      (fun _ => True) fun _ => True :=
    triple_writeTombstone (fun _ _ => ⟨trivial, trivial⟩) (fun _ _ => trivial) fun _ _ => trivial
  exact ⟨_, writes, writes.meets marks (Kept.refl store)⟩

/-- The database is removed where there is one. -/
theorem returns_removeDatabase (database : Option Bytes)
    (known : store.files .database = database) :
    ∃ left, (Program.onlyIf (database.isSome = true) removeDatabase).Returns store ()
        { store with files := left } ∧ left .database = none ∧
      ∀ name, name ≠ .database → left name = store.files name := by
  cases database with
  | none =>
      exact ⟨store.files, .onlyIf (fun holds => by cases holds) fun _ => rfl, known,
        fun _ _ => rfl⟩
  | some content =>
      refine ⟨(Files.Effect.remove .database).apply store.files, .onlyIf (fun _ => ?_) ?_, ?_, ?_⟩
      · exact .bind returns_touch returns_access
      · exact fun absent => absurd rfl absent
      · simp [Files.Effect.apply]
      · intro name differs
        simp [Files.Effect.apply, differs]

/-- The plain files are retired behind a snapshot that holds them. -/
theorem returns_finishLegacyRetirement {random : Bytes} (usable : store.unusable = false)
    (disk : store.disk = some bytes) (snapshot : store.files .snapshot = some bytes)
    (opens : Vault.openSealed P host.code bytes password store.network = .ok opened)
    (agrees : LegacyAgrees host store.files opened.wallet)
    (drawn : draws.retirement = some random) (fresh : store.files (.retirement random) = none) :
    ∃ left, (finishLegacyRetirement host password draws).Returns store () left ∧
      Settled bytes store.network left ∧
        left.session = some { sealed := bytes, unlocked := none } := by
  have finished : ¬(store.files .databaseTemporary).isSome = true := by simp [agrees.unfinished]
  have same : store.disk = store.files .snapshot := disk.trans snapshot.symm
  obtain ⟨files, removes, noDatabase, others⟩ :=
    @returns_removeDatabase _ { store with unusable := true } _ rfl
  have marks : ∃ left, (Program.onlyIf (store.files .seed ≠ some legacyTombstone)
      (writeTombstone draws)).Returns { store with unusable := true, files := files } () left ∧
        Marked { store with unusable := true, files := files } left := by
    by_cases marked : store.files .seed = some legacyTombstone
    · refine ⟨_, .onlyIf (fun unmarked => absurd marked unmarked) fun _ => rfl, .refl ?_⟩
      exact (others .seed (by decide)).trans marked
    · have free : files (.retirement random) = none := (others _ (by simp)).trans fresh
      obtain ⟨left, writes, replaced⟩ := @returns_writeTombstone _
        { store with unusable := true, files := files } _ _ drawn free
      exact ⟨left, .onlyIf (fun _ => writes) fun absent => absurd marked absent, replaced⟩
  obtain ⟨left, writes, marked⟩ := marks
  refine ⟨{ left with session := some { sealed := bytes, unlocked := none }, unusable := false },
    ?_, ⟨rfl, marked.disk.trans disk, ?_, marked.replaced.network, ?_, ?_,
      marked.replaced.content⟩, rfl⟩
  · refine .bind (returns_healthy usable) ?_
    refine .bind (returns_checkDisk host same (short_of_openSealed opens snapshot)) ?_
    refine .bind returns_present (.bind (.refuse finished) ?_)
    refine .bind (returns_verified opens snapshot) ?_
    refine .bind (returns_readOptional agrees.seedSize) ?_
    refine .bind (returns_readOptional agrees.databaseSize) ?_
    refine .bind (.lift agrees.seed) (.bind (.lift agrees.database) (.bind .modify ?_))
    exact .bind removes (.bind writes (.bind returns_access (.bind .modify .modify)))
  · exact (marked.replaced.others .snapshot trivial (by decide)).trans
      ((others .snapshot (by decide)).trans snapshot)
  · exact (marked.replaced.others .database trivial (by decide)).trans noDatabase
  · exact (marked.replaced.others .databaseTemporary trivial (by decide)).trans
      ((others .databaseTemporary (by decide)).trans agrees.unfinished)

/-- The password opens the session, and the wallet can be asked for. -/
theorem returns_unlock (settled : Settled bytes network store)
    (session : store.session = some { sealed := bytes, unlocked := none })
    (opens : Vault.openSealed P host.code bytes password network = .ok opened) :
    ∃ left, (unlock host password).Returns store () left ∧
      (VaultStore.wallet : Action P (Wallet P)).Returns left opened.wallet left := by
  obtain rfl := settled.network
  have same : store.disk = store.files .snapshot := settled.disk.trans settled.snapshot.symm
  refine ⟨{ store with session := some { sealed := bytes, unlocked := some opened } }, ?_, ?_⟩
  · refine .bind settled.returns_ready ?_
    refine .bind (returns_checkDisk host same (short_of_openSealed opens settled.snapshot)) ?_
    refine .bind (returns_currentSession session) (.bind .read (.bind (returns_ofVault ?_) .modify))
    rw [Guard.toExcept_eq_ok]
    exact Vault.unlock_of_openSealed opens
  · have still : Settled bytes store.network ({ store with
        session := some { sealed := bytes, unlocked := some opened } } : VaultStore P) :=
      ⟨settled.usable, settled.disk, settled.snapshot, rfl, settled.database, settled.unfinished,
        settled.seed⟩
    exact .bind still.returns_ready (.bind (returns_currentSession rfl) (returns_ofVault rfl))

/-- Whatever happened to the store before, the password gives the wallet back. -/
theorem recovers_of_consistent {random : Bytes}
    (consistent : Consistent host (.sealed wallet password) store)
    (drawn : draws.retirement = some random) (fresh : store.files (.retirement random) = none) :
    ∃ left, (recover host password draws).Returns store wallet left := by
  cases consistent.carries with
  | sealed snapshot unseals agrees =>
      obtain ⟨opened, opens, rfl⟩ := unseals
      obtain ⟨settled, retires, here, session⟩ := @returns_finishLegacyRetirement _ host
        { store with
          session := some { sealed := _, unlocked := none }
          disk := some _
          unusable := false } _ _ _ draws _ rfl rfl snapshot opens agrees drawn fresh
      obtain ⟨left, unlocks, shows⟩ := returns_unlock here session opens
      exact ⟨left, .bind (returns_openStore opens snapshot) (.bind retires (.bind unlocks shows))⟩

/-- A session of the sample wallet, and its envelope. -/
def sampleSession : Unlocked Sample.primitives where
  key := Sample.digest (Sample.password ++ Sample.storeSalt.val)
  head := Vault.newHead .devnet Sample.storeSalt
  wallet := Sample.wallet

def sampleEnvelope : Bytes :=
  sampleSession.head.val ++ List.replicate 24 6 ++
    (Sample.stateText Sample.wallet.exported ++ Sample.tag sampleSession.key)

/-- The process stopped behind the first snapshot. -/
def sampleStopped : VaultStore Sample.primitives :=
  unopened .devnet fun name => if name = .snapshot then some sampleEnvelope else none

theorem sampleStopped_consistent :
    Consistent Sample.vaultHost (.sealed Sample.wallet.restoredForm Sample.password)
      sampleStopped := by
  have derived : Vault.deriveKey Sample.vaultCode Sample.password
      (Vault.saltOf sampleSession.head) = .ok sampleSession.key := rfl
  have opensWith : sampleSession.OpensWith Sample.vaultCode .devnet Sample.password :=
    ⟨Vault.headFor_newHead _ _, derived, rfl, rfl⟩
  have short : ¬(Sample.stateText Sample.wallet.exported).length > 256 * 1024 * 1024 := by
    decide +kernel
  have encrypted : sampleSession.encrypt Sample.vaultCode Sample.storeDraws.nonce =
      .ok sampleEnvelope := by
    have head : ¬sampleSession.head.val[10]? ≠ some (Vault.networkByte .devnet) :=
      not_not.mpr (Vault.headFor_newHead _ _).network
    simp only [Unlocked.encrypt, Guard.bind_eq_ok, Guard.refuse_eq_ok, Guard.need_eq_ok,
      Except.ok.injEq]
    exact ⟨(), head, (), short, _, rfl, _, rfl, rfl⟩
  have opens := Vault.openSealed_encrypt Sample.vaultCode_sound opensWith encrypted
  exact .of_unusable (.sealed rfl ⟨_, opens, rfl⟩
    (legacyAgrees_of_retired rfl rfl (.inr rfl))) rfl

theorem recovers_of_consistent_sample :
    ∃ left, (recover Sample.vaultHost Sample.password Sample.storeDraws).Returns sampleStopped
      Sample.wallet.restoredForm left :=
  recovers_of_consistent sampleStopped_consistent rfl rfl

end Recovery

end VaultStore

end Nightfall
