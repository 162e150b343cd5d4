import Nightfall.Library.Faulty
import Nightfall.Wallet.Vault

/-!
# The encrypted wallet on disk

A store keeps the last committed snapshot of a vault in one file and the session in memory.
Every change is made on a copy of the session, sealed, written beside the snapshot and
renamed over it.  Every access to a file may report an error, and the process may stop
within every one.
-/

namespace Nightfall

open Faulty (Program Fate Ending)

variable {P : Primitives}

/-- The files of a wallet: the plain seed and database of the legacy format, the committed
snapshot in the vault directory, and files that are being written under a random name. -/
inductive VaultFile where
  | seed
  | database
  | databaseTemporary
  | snapshot
  | pending (random : Bytes)
  | retirement (random : Bytes)
  deriving DecidableEq

/-- Code outside the repository that a store uses. -/
structure VaultHost where
  code : VaultCode
  /-- `serde_json` on a legacy database, and back. -/
  readDatabase : Bytes → Option WalletFile
  writeDatabase : WalletFile → Bytes

inductive StoreError where
  | io
  | vault (source : VaultError)
  | missing
  | sizeLimit
  | uncertain
  | retirementIncomplete
  | changedOnDisk
  | alreadyExists
  | legacyFound
  | markerWithoutVault
  | wrongNetwork
  | verificationFailed
  | unfinishedLegacySave
  | invalidSeed
  | invalidDatabase
  | seedDiffers
  | databaseDiffers
  | notInitialized
  | identity
  | edit

/-- An open store, with the files as they are. -/
structure VaultStore (P : Primitives) where
  files : Files.Tree VaultFile
  network : NetworkId
  session : Option (Vault P)
  /-- The snapshot that was read or committed last. -/
  disk : Option Bytes
  unusable : Bool

/-- What a call draws from the system's random source. -/
structure StoreDraws where
  salt : Option (FixedBytes 16)
  nonce : Option (FixedBytes 24)
  pending : Option Bytes
  retirement : Option Bytes

namespace VaultStore

/-- A program of a store. -/
abbrev Action (P : Primitives) (α : Type) : Type :=
  Program StoreError (VaultStore P) α

def maxSeedBytes : Nat := 1024

/-- Not hex, so that no old client takes it for a seed. -/
def legacyTombstone : Bytes :=
  ascii ("NIGHTFALL ENCRYPTED VAULT v1\nThis file is not a seed. " ++
    "Use a vault-compatible wallet. " ++
    "Do not delete this marker or the adjacent .vault directory.\n")

/-! ## Files -/

/-- An access that changes nothing. -/
def access : Action P Unit :=
  .perform .io fun _ store => store

def touch (effect : Files.Effect VaultFile) : Action P Unit :=
  .perform .io fun fate store => { store with files := Faulty.leaves effect store.files fate }

def present (name : VaultFile) : Action P Bool := do
  access
  .read fun store => (store.files name).isSome

def readRequired (name : VaultFile) (max : Nat) : Action P Bytes := do
  access
  let content ← Program.read fun store => store.files name
  let content ← .lift (Guard.need content .missing)
  .refuse (content.length > max) .sizeLimit
  pure content

def readOptional (name : VaultFile) (max : Nat) : Action P (Option Bytes) := do
  if ← present name then
    let content ← readRequired name max
    pure (some content)
  else pure none

/-- Create a file that must not exist yet. -/
def createPrivateNew (name : VaultFile) : Action P Unit := do
  let taken ← Program.read fun store => (store.files name).isSome
  .refuse (taken = true) .io
  touch (.write name [])

/-- Nothing reaches a file by this, but an error may be reported. -/
def sync : Action P Unit :=
  access

def setUnusable (unusable : Bool) : Action P Unit :=
  .modify fun store => { store with unusable := unusable }

/-! ## Checks -/

def hasSnapshot (store : VaultStore P) : Bool :=
  store.disk.isSome

def healthy : Action P Unit := do
  let unusable ← Program.read VaultStore.unusable
  .refuse (unusable = true) .uncertain

def needsLegacyRetirement : Action P Bool := do
  if ← present .database then pure true
  else if ← present .databaseTemporary then pure true
  else
    let seed ← readOptional .seed maxSeedBytes
    match seed with
    | some content => pure (content != legacyTombstone)
    | none => .read hasSnapshot

def ready : Action P Unit := do
  healthy
  let needed ← needsLegacyRetirement
  .refuse (needed = true) .retirementIncomplete

def checkDisk (host : VaultHost) : Action P Unit := do
  let current ← readOptional .snapshot (Vault.maxVaultBytes host.code)
  let disk ← Program.read VaultStore.disk
  .refuse (current ≠ disk) .changedOnDisk

/-- A vault computation, with its errors as those of a store. -/
def ofVault {α : Type} (result : Except VaultError α) : Action P α :=
  .lift (result.mapError .vault)

/-! ## Legacy files -/

def parseSeed (P : Primitives) (content : Bytes) : Except StoreError (WalletKeys P) := do
  Guard.refuse (¬Utf8.isValid content) .invalidSeed
  let seed ← Guard.need (decode32 (Utf8.trim content)) .invalidSeed
  .ok (WalletKeys.fromSeed P seed)

/-- A plain database never holds records of swaps. -/
def parseDatabase (host : VaultHost) (content : Bytes) : Except StoreError WalletFile := do
  let db ← Guard.need (host.readDatabase content) .invalidDatabase
  .ok { db with swapJournal := [] }

/-- A wallet that knows nothing of the chain. -/
def inMemory (network : NetworkId) (keys : WalletKeys P) (birthHeight : UInt64) : Wallet P where
  keys := keys
  network := network
  db :=
    { outputs := []
      scannedTo := birthHeight
      history := []
      birthHeight := birthHeight
      reserved := []
      scannedTip := []
      swapJournal := [] }
  storage := .memory

def readLegacy (host : VaultHost) : Action P (Wallet P) := do
  let unfinished ← present .databaseTemporary
  .refuse (unfinished = true) .unfinishedLegacySave
  let seed ← readRequired .seed maxSeedBytes
  let keys ← .lift (parseSeed P seed)
  let network ← Program.read VaultStore.network
  let database ← readOptional .database host.code.maxPlaintextBytes
  match database with
  | none => pure (inMemory network keys 0)
  | some content =>
      let db ← .lift (parseDatabase host content)
      pure { inMemory network keys 0 with db := db }

/-- Fill the file that was made for the tombstone and rename it over the seed. -/
def commitTombstone (random : Bytes) : Action P Unit := do
  touch (.append (.retirement random) legacyTombstone)
  sync
  touch (.rename (.retirement random) .seed)
  sync

def writeTombstone (draws : StoreDraws) : Action P Unit := do
  let random ← ofVault (Guard.need draws.retirement .randomUnavailable)
  createPrivateNew (.retirement random)
  Program.ensuring (commitTombstone random) (touch (.remove (.retirement random)))

/-! ## Commits -/

/-- Fill the file that was made for the snapshot and rename it.  Behind the rename an error
leaves the outcome open. -/
def commitPending (host : VaultHost) (bytes random : Bytes) : Action P Unit := do
  touch (.append (.pending random) (bytes.take (bytes.length / 2)))
  touch (.append (.pending random) (bytes.drop (bytes.length / 2)))
  sync
  checkDisk host
  touch (.rename (.pending random) .snapshot)
  setUnusable true
  sync
  .modify fun store => { store with disk := some bytes }
  setUnusable false

/-- Write the snapshot beside the committed one and rename it. -/
def persist (host : VaultHost) (bytes : Bytes) (draws : StoreDraws) : Action P Unit := do
  healthy
  let _ ← ofVault (Vault.fromBytes P host.code bytes)
  checkDisk host
  let random ← ofVault (Guard.need draws.pending .randomUnavailable)
  createPrivateNew (.pending random)
  Program.ensuring (commitPending host bytes random) (touch (.remove (.pending random)))

def setSession (session : Vault P) : Action P Unit :=
  .modify fun store => { store with session := some session }

/-- The snapshot as it was committed, opened with the password. -/
def verified (host : VaultHost) (password : Text) : Action P (Vault P × Wallet P) := do
  let bytes ← readRequired .snapshot (Vault.maxVaultBytes host.code)
  let vault ← ofVault (Vault.fromBytes P host.code bytes)
  let network ← Program.read VaultStore.network
  let opened ← ofVault (Guard.toExcept (vault.unlock host.code password network))
  let wallet ← ofVault opened.wallet
  pure (opened, wallet)

def sameWallet (host : VaultHost) (left right : Wallet P) : Prop :=
  left.exportState host.code = right.exportState host.code

instance (host : VaultHost) (left right : Wallet P) : Decidable (sameWallet host left right) :=
  inferInstanceAs (Decidable (_ = _))

def install (host : VaultHost) (wallet : Wallet P) (password : Text) (draws : StoreDraws) :
    Action P Unit := do
  let candidate ← ofVault (Vault.create host.code wallet password draws.salt draws.nonce)
  persist host candidate.sealed draws
  let (opened, saved) ← verified host password
  .refuse (¬sameWallet host wallet saved) .verificationFailed
  setSession opened.forgetUnlocked

/-! ## Operations -/

/-- A locked session on a snapshot. -/
def sessionOf (host : VaultHost) : Option Bytes → Action P (Option (Vault P))
  | none => pure none
  | some bytes => do
      let vault ← ofVault (Vault.fromBytes P host.code bytes)
      pure (some vault)

/-- Read whatever snapshot is there.  The directory stays a mark for legacy clients. -/
def openStore (host : VaultHost) : Action P Unit := do
  sync
  let disk ← readOptional .snapshot (Vault.maxVaultBytes host.code)
  let session ← sessionOf host disk
  .modify fun store => { store with session := session, disk := disk, unusable := false }

/-- Provision a new wallet, never over an existing one. -/
def initializeVault (host : VaultHost) (wallet : Wallet P) (password : Text) (draws : StoreDraws) :
    Action P Unit := do
  healthy
  let existing ← Program.read hasSnapshot
  .refuse (existing = true) .alreadyExists
  let legacy ← needsLegacyRetirement
  .refuse (legacy = true) .legacyFound
  let marked ← present .seed
  .refuse (marked = true) .markerWithoutVault
  let network ← Program.read VaultStore.network
  .refuse (wallet.network ≠ network) .wrongNetwork
  install host wallet password draws
  setUnusable true
  writeTombstone draws
  setUnusable false

/-- Import seed and database, and leave both as they are. -/
def migrateLegacy (host : VaultHost) (password : Text) (draws : StoreDraws) : Action P Unit := do
  healthy
  let existing ← Program.read hasSnapshot
  .refuse (existing = true) .alreadyExists
  let wallet ← readLegacy host
  install host wallet password draws

/-- The seed must be that of the wallet, unless it was retired. -/
def checkSeed (wallet : Wallet P) : Option Bytes → Except StoreError Unit
  | none => .ok ()
  | some content =>
      if content = legacyTombstone then .ok ()
      else do
        let keys ← parseSeed P content
        Guard.refuse (keys.seed ≠ wallet.keys.seed) .seedDiffers

/-- The database must be that of the wallet. -/
def checkDatabase (host : VaultHost) (wallet : Wallet P) : Option Bytes → Except StoreError Unit
  | none => .ok ()
  | some content => do
      let db ← parseDatabase host content
      Guard.refuse (host.writeDatabase db ≠ host.writeDatabase wallet.db) .databaseDiffers

def removeDatabase : Action P Unit := do
  touch (.remove .database)
  sync

/-- Remove the database and replace the seed by the tombstone, when both are known to be in
the snapshot. -/
def finishLegacyRetirement (host : VaultHost) (password : Text) (draws : StoreDraws) :
    Action P Unit := do
  healthy
  checkDisk host
  let unfinished ← present .databaseTemporary
  .refuse (unfinished = true) .unfinishedLegacySave
  let (opened, wallet) ← verified host password
  let seed ← readOptional .seed maxSeedBytes
  let database ← readOptional .database host.code.maxPlaintextBytes
  .lift (checkSeed wallet seed)
  .lift (checkDatabase host wallet database)
  setUnusable true
  .onlyIf (database.isSome = true) removeDatabase
  .onlyIf (seed ≠ some legacyTombstone) (writeTombstone draws)
  sync
  setSession opened.forgetUnlocked
  setUnusable false

def currentSession : Action P (Vault P) := do
  let session ← Program.read VaultStore.session
  .lift (Guard.need session .notInitialized)

def unlock (host : VaultHost) (password : Text) : Action P Unit := do
  ready
  checkDisk host
  let vault ← currentSession
  let network ← Program.read VaultStore.network
  let opened ← ofVault (Guard.toExcept (vault.unlock host.code password network))
  setSession opened

def lock : Action P Unit :=
  .modify fun store => { store with session := store.session.map Vault.forgetUnlocked }

def wallet : Action P (Wallet P) := do
  ready
  let vault ← currentSession
  ofVault vault.wallet

/-- A change of a wallet in memory, with a result that leaves the store only behind the
commit. -/
abbrev Edit (P : Primitives) (α : Type) : Type :=
  Wallet P → Option (α × Wallet P)

/-- The session with a wallet that was edited. -/
def edited (vault : Vault P) (wallet : Wallet P) : Vault P :=
  { vault with unlocked := vault.unlocked.map fun opened => { opened with wallet := wallet } }

def update {α : Type} (host : VaultHost) (edit : Edit P α) (draws : StoreDraws) :
    Action P α := do
  ready
  let vault ← currentSession
  let candidate ← ofVault (vault.copySession host.code)
  let before ← ofVault candidate.wallet
  let (result, after) ← .lift (Guard.need (edit before) .edit)
  let network ← Program.read VaultStore.network
  .refuse (after.network ≠ network) .wrongNetwork
  let current ← ofVault vault.wallet
  .refuse (after.keys.seed ≠ current.keys.seed ∨ after.keys.address ≠ current.keys.address)
    .identity
  let sealed ← ofVault (Guard.toExcept ((edited candidate after).snapshot host.code draws.nonce))
  persist host sealed.sealed draws
  setSession sealed
  pure result

def changePassword (host : VaultHost) (password : Text) (draws : StoreDraws) : Action P Unit := do
  ready
  let vault ← currentSession
  let candidate ← ofVault (vault.copySession host.code)
  let replaced ← ofVault
    (Guard.toExcept (candidate.changePassword host.code password draws.salt draws.nonce))
  persist host replaced.sealed draws
  setSession replaced

end VaultStore

end Nightfall
