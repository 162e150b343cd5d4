import Nightfall.Wallet.PaymentRequest
import Nightfall.Wallet.State

/-!
# The encrypted wallet container

A vault keeps the last sealed snapshot of a wallet and, while it is unlocked, the wallet
itself.  An edit works on a copy of the session, which is adopted after its snapshot was
stored.  The text format, the key derivation and the cipher come from outside the
repository.
-/

namespace Nightfall

variable {P : Primitives}

/-- An array of a fixed length. -/
abbrev FixedBytes (length : Nat) := { bytes : Bytes // bytes.length = length }

/-- The state of a wallet as it is exported. -/
structure ExportedState where
  v : Nat
  network : Text
  seed : Text
  db : WalletFile
  deriving DecidableEq

inductive StateError where
  | tooLarge
  | invalid
  | journal
  | version
  | unknownNetwork
  | seed
  deriving DecidableEq

inductive VaultError where
  | invalidEnvelope
  | unsupportedFormat
  | wrongNetwork
  | authentication
  | invalidWallet
  | passwordPolicy
  | sizeLimit
  | locked
  | alreadyUnlocked
  | randomUnavailable
  | keyDerivation
  | encryption
  deriving DecidableEq

/-- Code outside the repository that a vault uses, and the bound that the target sets. -/
structure VaultCode where
  /-- Upper bound on a state text. -/
  maxPlaintextBytes : Nat
  /-- `serde_json` on a state. -/
  writeState : ExportedState → Text
  readState : Text → Option ExportedState
  /-- `Journal::validate` on the records that these texts stand for. -/
  journalValid : List Text → Bool
  /-- Argon2id with the fixed costs, of a password and a salt. -/
  argon2 : Text → Bytes → Option Bytes32
  /-- XChaCha20Poly1305 under a key, with a nonce, bytes to authenticate and a message. -/
  encrypt : Bytes32 → Bytes → Bytes → Bytes → Option Bytes
  decrypt : Bytes32 → Bytes → Bytes → Bytes → Option Bytes

/-- A written state is read back. -/
def VaultCode.Faithful (code : VaultCode) : Prop :=
  ∀ state, code.readState (code.writeState state) = some state

/-! ## Exported states -/

namespace Wallet

def exported (wallet : Wallet P) : ExportedState where
  v := 1
  network := wallet.network.asStr
  seed := wallet.keys.seed.toHex
  db := wallet.db

def exportState (code : VaultCode) (wallet : Wallet P) : Text :=
  code.writeState wallet.exported

def stateNetwork (name : Text) : Option NetworkId :=
  [.mainnet, .testnet, .devnet].find? fun network => network.asStr = name

/-- Restore a working copy.  It never writes a file. -/
def importOwnState (P : Primitives) (code : VaultCode) (blob : Text) :
    Except StateError (Wallet P) := do
  let state ← Guard.need (code.readState blob) .invalid
  Guard.refuse (¬code.journalValid state.db.swapJournal) .journal
  Guard.refuse (state.v ≠ 1) .version
  let network ← Guard.need (stateNetwork state.network) .unknownNetwork
  let seed ← Guard.need (decode32 state.seed) .seed
  .ok
    { keys := WalletKeys.fromSeed P seed
      network := network
      db := state.db
      storage := .memory }

def importState (P : Primitives) (code : VaultCode) (blob : Text) :
    Except StateError (Wallet P) := do
  Guard.refuse (blob.length > code.maxPlaintextBytes) .tooLarge
  importOwnState P code blob

/-- What every imported wallet is: it has no file, and its keys are those of its seed. -/
structure Restored (wallet : Wallet P) : Prop where
  memory : wallet.storage = .memory
  keys : wallet.keys = WalletKeys.fromSeed P wallet.keys.seed

@[simp] theorem stateNetwork_asStr (network : NetworkId) :
    stateNetwork network.asStr = some network := by
  cases network <;> decide

section Import

variable {code : VaultCode} {blob : Text} {wallet back : Wallet P}

theorem importOwnState_eq_ok (imported : importOwnState P code blob = .ok wallet) :
    ∃ state network seed, code.readState blob = some state ∧
      code.journalValid state.db.swapJournal = true ∧
      stateNetwork state.network = some network ∧ decode32 state.seed = some seed ∧
      wallet = ⟨WalletKeys.fromSeed P seed, network, state.db, .memory⟩ := by
  simp only [importOwnState, Guard.bind_eq_ok, Guard.need_eq_ok, Guard.refuse_eq_ok,
    Except.ok.injEq] at imported
  obtain ⟨state, read, _, valid, _, _, network, named, seed, decoded, rfl⟩ := imported
  exact ⟨state, network, seed, read, by simpa using valid, named, decoded, rfl⟩

theorem importState_eq_ok :
    importState P code blob = .ok wallet ↔
      blob.length ≤ code.maxPlaintextBytes ∧ importOwnState P code blob = .ok wallet := by
  simp [importState]

/-- A restored wallet that is exported comes back as it was. -/
theorem importOwnState_exportState (faithful : code.Faithful) (restored : wallet.Restored)
    (valid : code.journalValid wallet.db.swapJournal) :
    importOwnState P code (wallet.exportState code) = .ok wallet := by
  obtain ⟨keys, network, db, storage⟩ := wallet
  obtain ⟨rfl, keys⟩ := restored
  simp only at keys valid
  simp only [importOwnState, exportState, faithful _, exported, Guard.need, stateNetwork_asStr,
    decode32_toHex, Guard.refuse, valid, bind, Except.bind]
  simp [← keys]

theorem eq_of_importState_exportState (faithful : code.Faithful) (restored : wallet.Restored)
    (imported : importState P code (wallet.exportState code) = .ok back) : back = wallet := by
  obtain ⟨_, own⟩ := importState_eq_ok.mp imported
  obtain ⟨state, _, _, read, valid, _⟩ := importOwnState_eq_ok own
  rw [exportState, faithful] at read
  obtain rfl := Option.some.inj read
  have same := importOwnState_exportState faithful restored valid
  exact Except.ok.inj (own.symm.trans same)

end Import

end Wallet

/-! ## Envelopes -/

/-- A wallet with the key that seals it and the first bytes of its envelope. -/
structure Unlocked (P : Primitives) where
  key : Bytes32
  head : FixedBytes 31
  wallet : Wallet P

/-- The last sealed snapshot, and the session while there is one. -/
structure Vault (P : Primitives) where
  sealed : Bytes
  unlocked : Option (Unlocked P)

namespace Vault

def magic : Bytes := ascii "NFVAULT" ++ [0]
def format : UInt8 := 1
def profile : UInt8 := 1
def headLen : Nat := 31
def headerLen : Nat := headLen + 24
def tagLen : Nat := 16

def maxVaultBytes (code : VaultCode) : Nat :=
  code.maxPlaintextBytes + headerLen + tagLen

def networkByte : NetworkId → UInt8
  | .mainnet => 0
  | .testnet => 1
  | .devnet => 2

/-- The network of an envelope.  Nothing of it is authenticated yet. -/
def parseHeader (code : VaultCode) (blob : Bytes) : Except VaultError NetworkId := do
  Guard.refuse (blob.length > maxVaultBytes code) .sizeLimit
  Guard.refuse (blob.length < headerLen + tagLen ∨ blob.take 8 ≠ magic) .invalidEnvelope
  Guard.refuse (blob[8]? ≠ some format ∨ blob[9]? ≠ some profile ∨
    (blob.drop 11).take 4 ≠ u32LeBytes protocolVersion) .unsupportedFormat
  Guard.need
    ([.mainnet, .testnet, .devnet].find? fun network => blob[10]? = some (networkByte network))
    .invalidEnvelope

/-- The characters of a text: every byte but the continuation bytes begins one. -/
def charCount (text : Text) : Nat :=
  text.countP fun byte => !(0x80 ≤ byte && byte ≤ 0xBF)

def passwordPolicy (password : Text) : Except VaultError Unit :=
  Guard.refuse (password.length > 1024 ∨ charCount password < 12 ∨ (Utf8.trim password).isEmpty)
    .passwordPolicy

/-- The first bytes of a new envelope, with a fresh salt. -/
def newHead (network : NetworkId) (salt : FixedBytes 16) : FixedBytes 31 :=
  ⟨magic ++ [format, profile, networkByte network] ++ u32LeBytes protocolVersion ++ salt.val,
    by simp [salt.property, magic, ascii]⟩

def saltOf (head : FixedBytes 31) : Bytes :=
  head.val.drop 15

def deriveKey (code : VaultCode) (password salt : Bytes) : Except VaultError Bytes32 := do
  passwordPolicy password
  Guard.need (code.argon2 password salt) .keyDerivation

end Vault

/-- Seal the session under a fresh nonce. -/
def Unlocked.encrypt (code : VaultCode) (unlocked : Unlocked P) (nonce : Option (FixedBytes 24)) :
    Except VaultError Bytes := do
  Guard.refuse (unlocked.head.val[10]? ≠ some (Vault.networkByte unlocked.wallet.network))
    .wrongNetwork
  let plain := unlocked.wallet.exportState code
  Guard.refuse (plain.length > code.maxPlaintextBytes) .sizeLimit
  let nonce ← Guard.need nonce .randomUnavailable
  let header := unlocked.head.val ++ nonce.val
  let ciphertext ← Guard.need (code.encrypt unlocked.key nonce.val header plain) .encryption
  .ok (header ++ ciphertext)

namespace Vault

/-- The vault after an operation that makes a new one or refuses. -/
def publish (vault : Vault P) (made : Except VaultError (Vault P)) :
    Except VaultError Unit × Vault P :=
  match made with
  | .ok vault => (.ok (), vault)
  | .error error => (.error error, vault)

def session (vault : Vault P) : Except VaultError (Unlocked P) :=
  Guard.need vault.unlocked .locked

def wallet (vault : Vault P) : Except VaultError (Wallet P) :=
  vault.session.map Unlocked.wallet

/-- A transactional copy of the session: the candidate of an edit. -/
def copySession (code : VaultCode) (vault : Vault P) : Except VaultError (Vault P) := do
  let current ← vault.session
  let wallet ← (Wallet.importState P code (current.wallet.exportState code)).mapError
    fun _ => .invalidWallet
  .ok { vault with unlocked := some { current with wallet := wallet } }

def forgetUnlocked (vault : Vault P) : Vault P :=
  { vault with unlocked := none }

/-- Copy a wallet into a sealed session. -/
def create (code : VaultCode) (wallet : Wallet P) (password : Text)
    (salt : Option (FixedBytes 16)) (nonce : Option (FixedBytes 24)) :
    Except VaultError (Vault P) := do
  passwordPolicy password
  let plain := wallet.exportState code
  Guard.refuse (plain.length > code.maxPlaintextBytes) .sizeLimit
  let wallet ← (Wallet.importState P code plain).mapError fun _ => .invalidWallet
  let salt ← Guard.need salt .randomUnavailable
  let head := newHead wallet.network salt
  let key ← deriveKey code password (saltOf head)
  let unlocked : Unlocked P := ⟨key, head, wallet⟩
  let sealed ← unlocked.encrypt code nonce
  .ok { sealed := sealed, unlocked := some unlocked }

def fromBytes (P : Primitives) (code : VaultCode) (bytes : Bytes) :
    Except VaultError (Vault P) := do
  let _ ← parseHeader code bytes
  .ok { sealed := bytes, unlocked := none }

/-- The session that a password opens. -/
def openSealed (P : Primitives) (code : VaultCode) (sealed : Bytes) (password : Text)
    (expected : NetworkId) : Except VaultError (Unlocked P) := do
  let network ← parseHeader code sealed
  Guard.refuse (network ≠ expected) .wrongNetwork
  let key ← deriveKey code password ((sealed.take headLen).drop 15)
  let plain ← Guard.need (code.decrypt key ((sealed.take headerLen).drop headLen)
    (sealed.take headerLen) (sealed.drop headerLen)) .authentication
  Guard.refuse (¬Utf8.isValid plain) .invalidWallet
  let wallet ← (Wallet.importState P code plain).mapError fun _ => .invalidWallet
  Guard.refuse (wallet.network ≠ expected) .wrongNetwork
  if complete : (sealed.take headLen).length = 31 then
    .ok ⟨key, ⟨sealed.take headLen, complete⟩, wallet⟩
  -- The header was checked to be longer.
  else .error .invalidEnvelope

/-- Authenticate first, and publish nothing before all validation passed. -/
def unlock (code : VaultCode) (vault : Vault P) (password : Text) (expected : NetworkId) :
    Except VaultError Unit × Vault P :=
  vault.publish do
    Guard.refuse vault.unlocked.isSome .alreadyUnlocked
    let opened ← openSealed P code vault.sealed password expected
    .ok { vault with unlocked := some opened }

/-- Seal the present state.  A locked vault keeps its snapshot. -/
def snapshot (code : VaultCode) (vault : Vault P) (nonce : Option (FixedBytes 24)) :
    Except VaultError Unit × Vault P :=
  match vault.unlocked with
  | some unlocked =>
      vault.publish ((unlocked.encrypt code nonce).map fun sealed =>
        { vault with sealed := sealed })
  | none => (.ok (), vault)

/-- Rotate salt and key as well as the nonce. -/
def changePassword (code : VaultCode) (vault : Vault P) (password : Text)
    (salt : Option (FixedBytes 16)) (nonce : Option (FixedBytes 24)) :
    Except VaultError Unit × Vault P :=
  vault.publish do
    let current ← vault.session
    Guard.refuse (current.head.val[10]? ≠ some (networkByte current.wallet.network)) .wrongNetwork
    passwordPolicy password
    let wallet ← (Wallet.importState P code (current.wallet.exportState code)).mapError
      fun _ => .invalidWallet
    let salt ← Guard.need salt .randomUnavailable
    let head := newHead wallet.network salt
    let key ← deriveKey code password (saltOf head)
    let replacement : Unlocked P := ⟨key, head, wallet⟩
    let sealed ← replacement.encrypt code nonce
    .ok { sealed := sealed, unlocked := some replacement }

end Vault

/-! ## What the operations leave -/

namespace Vault

variable {code : VaultCode} {vault copy : Vault P}

theorem publish_eq_ok {made : Except VaultError (Vault P)} {after : Vault P} :
    vault.publish made = (.ok (), after) ↔ made = .ok after := by
  cases made <;> simp [publish]

theorem sealed_of_fromBytes {bytes : Bytes} (parsed : fromBytes P code bytes = .ok vault) :
    bytes = vault.sealed := by
  simp only [fromBytes, Guard.bind_eq_ok, Except.ok.injEq] at parsed
  obtain ⟨_, _, rfl⟩ := parsed
  rfl

theorem locked_of_fromBytes {bytes : Bytes} (parsed : fromBytes P code bytes = .ok vault) :
    vault.unlocked = none := by
  simp only [fromBytes, Guard.bind_eq_ok, Except.ok.injEq] at parsed
  obtain ⟨_, _, rfl⟩ := parsed
  rfl

theorem unlock_eq_ok {password : Text} {network : NetworkId}
    (unlocks : vault.unlock code password network = (.ok (), copy)) :
    ∃ opened, openSealed P code vault.sealed password network = .ok opened ∧
      copy = { vault with unlocked := some opened } := by
  rw [unlock, publish_eq_ok] at unlocks
  simp only [Guard.bind_eq_ok, Except.ok.injEq] at unlocks
  obtain ⟨_, _, opened, made, rfl⟩ := unlocks
  exact ⟨opened, made, rfl⟩

theorem sealed_of_unlock {password : Text} {network : NetworkId}
    (unlocks : vault.unlock code password network = (.ok (), copy)) :
    vault.sealed = copy.sealed := by
  obtain ⟨opened, -, rfl⟩ := unlock_eq_ok unlocks
  rfl

end Vault

/-! ## What is sealed can be opened -/

/-- What a vault relies on: a written state is text and is read back, and what was encrypted
is decrypted under the same key, nonce and header. -/
structure VaultCode.Sound (code : VaultCode) : Prop where
  faithful : code.Faithful
  text : ∀ state, Utf8.isValid (code.writeState state) = true
  opens : ∀ key nonce header plain ciphertext,
    code.encrypt key nonce header plain = some ciphertext →
      ciphertext.length = plain.length + Vault.tagLen ∧
        code.decrypt key nonce header ciphertext = some plain

/-- The wallet as it comes back from its exported state. -/
def Wallet.restoredForm (wallet : Wallet P) : Wallet P where
  keys := WalletKeys.fromSeed P wallet.keys.seed
  network := wallet.network
  db := wallet.db
  storage := .memory

/-- The first bytes of an envelope of this network. -/
structure Vault.HeadFor (head : FixedBytes 31) (network : NetworkId) : Prop where
  magic : head.val.take 8 = Vault.magic
  format : head.val[8]? = some Vault.format
  profile : head.val[9]? = some Vault.profile
  network : head.val[10]? = some (Vault.networkByte network)
  version : (head.val.drop 11).take 4 = u32LeBytes protocolVersion

/-- The password opens what the session seals, on this network. -/
structure Unlocked.OpensWith (opened : Unlocked P) (code : VaultCode) (network : NetworkId)
    (password : Text) : Prop where
  head : Vault.HeadFor opened.head network
  key : Vault.deriveKey code password (Vault.saltOf opened.head) = .ok opened.key
  journal : code.journalValid opened.wallet.db.swapJournal = true
  network : opened.wallet.network = network

namespace Vault

section Sealing

variable {code : VaultCode} {network : NetworkId} {wallet : Wallet P}

theorem importState_exportState (sound : code.Sound)
    (valid : code.journalValid wallet.db.swapJournal = true)
    (short : (wallet.exportState code).length ≤ code.maxPlaintextBytes) :
    Wallet.importState P code (wallet.exportState code) = .ok wallet.restoredForm := by
  have restored : wallet.restoredForm.Restored := ⟨rfl, rfl⟩
  have same : wallet.exportState code = wallet.restoredForm.exportState code := rfl
  rw [Wallet.importState_eq_ok]
  refine ⟨short, ?_⟩
  rw [same]
  exact Wallet.importOwnState_exportState sound.faithful restored valid

theorem headFor_newHead (network : NetworkId) (salt : FixedBytes 16) :
    HeadFor (newHead network salt) network := by
  constructor <;> cases network <;> rfl

theorem find_networkByte (network : NetworkId) :
    [NetworkId.mainnet, .testnet, .devnet].find? (fun other =>
      some (networkByte network) = some (networkByte other)) = some network := by
  cases network <;> decide

/-- An envelope behind a head of the network is one of the network. -/
theorem parseHeader_eq_ok {head : FixedBytes 31} {rest : Bytes} (headFor : HeadFor head network)
    (long : headerLen + tagLen ≤ (head.val ++ rest).length)
    (short : (head.val ++ rest).length ≤ maxVaultBytes code) :
    parseHeader code (head.val ++ rest) = .ok network := by
  have length := head.property
  have early {index : Nat} (inside : index < 31) : (head.val ++ rest)[index]? = head.val[index]? :=
    List.getElem?_append_left (by omega)
  have first : (head.val ++ rest).take 8 = magic := by
    rw [List.take_append_of_le_length (by omega), headFor.magic]
  have version : ((head.val ++ rest).drop 11).take 4 = u32LeBytes protocolVersion := by
    rw [List.drop_append_of_le_length (by omega), List.take_append_of_le_length, headFor.version]
    rw [List.length_drop]
    omega
  simp only [parseHeader, Guard.bind_eq_ok, Guard.refuse_eq_ok, Guard.need_eq_ok, first, version,
    early (by omega : 8 < 31), early (by omega : 9 < 31), early (by omega : 10 < 31),
    headFor.format, headFor.profile, headFor.network]
  exact ⟨(), by omega, (), by simpa using long, (), by simp, find_networkByte network⟩

/-- Bytes that open make a vault. -/
theorem fromBytes_of_openSealed {bytes : Bytes} {password : Text} {opened : Unlocked P}
    (opens : openSealed P code bytes password network = .ok opened) :
    bytes.length ≤ maxVaultBytes code ∧
      fromBytes P code bytes = .ok { sealed := bytes, unlocked := none } := by
  simp only [openSealed, Guard.bind_eq_ok] at opens
  obtain ⟨found, parsed, -⟩ := opens
  constructor
  · simp only [parseHeader, Guard.bind_eq_ok, Guard.refuse_eq_ok] at parsed
    obtain ⟨_, short, -⟩ := parsed
    exact Nat.not_lt.mp short
  · rw [fromBytes, parsed]
    rfl

theorem unlock_of_openSealed {bytes : Bytes} {password : Text} {opened : Unlocked P}
    (opens : openSealed P code bytes password network = .ok opened) :
    Vault.unlock code { sealed := bytes, unlocked := none } password network =
      (.ok (), { sealed := bytes, unlocked := some opened }) := by
  rw [unlock, publish_eq_ok, opens]
  rfl

/-- What a session seals is opened again with the password that its key comes from. -/
theorem openSealed_encrypt {opened : Unlocked P} {sealed : Bytes} {password : Text}
    {nonce : Option (FixedBytes 24)} (sound : code.Sound)
    (opens : opened.OpensWith code network password)
    (encrypted : opened.encrypt code nonce = .ok sealed) :
    openSealed P code sealed password network =
      .ok ⟨opened.key, opened.head, opened.wallet.restoredForm⟩ := by
  obtain ⟨headFor, derived, valid, sameNetwork⟩ := opens
  simp only [Unlocked.encrypt, Guard.bind_eq_ok, Guard.refuse_eq_ok, Guard.need_eq_ok,
    Except.ok.injEq] at encrypted
  obtain ⟨_, _, _, fits, drawn, rfl, ciphertext, made, rfl⟩ := encrypted
  obtain ⟨length, opens⟩ := sound.opens _ _ _ _ _ made
  have headLength : opened.head.val.length = headLen := opened.head.property
  have nonceLength := drawn.property
  have front : (opened.head.val ++ drawn.val ++ ciphertext).take headLen = opened.head.val := by
    rw [List.append_assoc, List.take_left' headLength]
  have header : (opened.head.val ++ drawn.val ++ ciphertext).take headerLen =
      opened.head.val ++ drawn.val := by
    rw [List.take_left']
    rw [List.length_append, headLength, nonceLength, headerLen, headLen]
  have behind : (opened.head.val ++ drawn.val ++ ciphertext).drop headerLen = ciphertext := by
    rw [List.drop_left']
    rw [List.length_append, headLength, nonceLength, headerLen, headLen]
  have nonce : (opened.head.val ++ drawn.val).drop headLen = drawn.val :=
    List.drop_left' headLength
  have parsed : parseHeader code (opened.head.val ++ drawn.val ++ ciphertext) = .ok network := by
    rw [List.append_assoc]
    apply parseHeader_eq_ok headFor
    · simp only [List.length_append, headLength, nonceLength, length, headerLen, headLen]
      omega
    · simp only [List.length_append, headLength, nonceLength, length, maxVaultBytes, headerLen,
        headLen]
      omega
  have imported := importState_exportState sound valid (Nat.not_lt.mp fits)
  simp only [openSealed, Guard.bind_eq_ok, Guard.refuse_eq_ok, Guard.need_eq_ok,
    Guard.mapError_eq_ok, front, header, behind, nonce]
  refine ⟨network, parsed, (), by simp, opened.key, derived, _, opens, (), ?_,
    opened.wallet.restoredForm, imported, (), ?_, ?_⟩
  · rw [not_not]
    exact sound.text _
  · simpa [Wallet.restoredForm] using sameNetwork
  · rw [dif_pos opened.head.property]

/-- A wallet that comes back from its exported state is the restored one, and its journal is
valid. -/
theorem eq_restoredForm_of_importState {back : Wallet P} (sound : code.Sound)
    (imported : Wallet.importState P code (wallet.exportState code) = .ok back) :
    back = wallet.restoredForm ∧ code.journalValid wallet.db.swapJournal = true := by
  have restored : wallet.restoredForm.Restored := ⟨rfl, rfl⟩
  have same : wallet.exportState code = wallet.restoredForm.exportState code := rfl
  obtain ⟨_, own⟩ := Wallet.importState_eq_ok.mp imported
  obtain ⟨state, _, _, read, valid, -⟩ := Wallet.importOwnState_eq_ok own
  rw [Wallet.exportState, sound.faithful] at read
  obtain rfl := Option.some.inj read
  rw [same] at imported
  exact ⟨Wallet.eq_of_importState_exportState sound.faithful restored imported, valid⟩

theorem importState_valid {blob : Text} {back : Wallet P}
    (imported : Wallet.importState P code blob = .ok back) :
    code.journalValid back.db.swapJournal = true ∧ back.Restored := by
  obtain ⟨_, own⟩ := Wallet.importState_eq_ok.mp imported
  obtain ⟨state, _, _, read, valid, _, _, rfl⟩ := Wallet.importOwnState_eq_ok own
  exact ⟨valid, rfl, rfl⟩

theorem restoredForm_of_restored (restored : wallet.Restored) : wallet.restoredForm = wallet := by
  obtain ⟨keys, network, db, storage⟩ := wallet
  obtain ⟨rfl, keys⟩ := restored
  simp only at keys
  rw [Wallet.restoredForm, ← keys]

theorem headFor_of_parseHeader {sealed : Bytes} (parsed : parseHeader code sealed = .ok network)
    (complete : (sealed.take headLen).length = 31) :
    HeadFor ⟨sealed.take headLen, complete⟩ network := by
  simp only [parseHeader, Guard.bind_eq_ok, Guard.refuse_eq_ok, Guard.need_eq_ok] at parsed
  obtain ⟨_, _, _, shape, _, versions, found⟩ := parsed
  simp only [not_or, not_not, Nat.not_lt, ne_eq] at shape versions
  have early {index : Nat} (inside : index < headLen) : (sealed.take headLen)[index]? =
      sealed[index]? := by
    rw [List.getElem?_take, if_pos inside]
  have known := List.find?_some found
  refine ⟨?_, ?_, ?_, ?_, ?_⟩
  · show (sealed.take headLen).take 8 = _
    rw [List.take_take]
    exact shape.2
  · exact (early (by decide)).trans versions.1
  · exact (early (by decide)).trans versions.2.1
  · exact (early (by decide)).trans (by simpa using known)
  · show ((sealed.take headLen).drop 11).take 4 = _
    rw [List.drop_take, List.take_take]
    exact versions.2.2

/-- A session that was opened can be opened again from what it seals. -/
theorem opensWith_of_openSealed {sealed : Bytes} {password : Text} {opened : Unlocked P}
    (unsealed : openSealed P code sealed password network = .ok opened) :
    opened.OpensWith code network password ∧ opened.wallet.Restored := by
  simp only [openSealed, Guard.bind_eq_ok, Guard.refuse_eq_ok, Guard.need_eq_ok,
    Guard.mapError_eq_ok] at unsealed
  obtain ⟨found, parsed, _, same, key, derived, _, _, _, _, wallet, imported, _, network, last⟩ :=
    unsealed
  obtain ⟨valid, restored⟩ := importState_valid imported
  rw [not_not] at same network
  obtain rfl := same
  split at last
  · next complete =>
      obtain rfl := Except.ok.inj last
      exact ⟨⟨headFor_of_parseHeader parsed complete, derived, valid, network⟩, restored⟩
  · cases last

/-- The password opens the bytes to the wallet. -/
def Unseals (code : VaultCode) (network : NetworkId) (bytes : Bytes) (wallet : Wallet P)
    (password : Text) : Prop :=
  ∃ opened, openSealed P code bytes password network = .ok opened ∧ opened.wallet = wallet

/-- The vault is open on the wallet, and the password opens its snapshot to the same. -/
structure SealsAs (code : VaultCode) (network : NetworkId) (vault : Vault P)
    (opened : Unlocked P) (wallet : Wallet P) (password : Text) : Prop where
  unlocked : vault.unlocked = some opened
  opensWith : opened.OpensWith code network password
  restored : opened.wallet.restoredForm = wallet
  unseals : Unseals code network vault.sealed wallet password

/-- A session that is sealed under its key. -/
theorem sealsAs_of_encrypt {opened : Unlocked P} {sealed : Bytes} {password : Text}
    {nonce : Option (FixedBytes 24)} (sound : code.Sound)
    (opensWith : opened.OpensWith code network password)
    (encrypted : opened.encrypt code nonce = .ok sealed) :
    SealsAs code network ⟨sealed, some opened⟩ opened opened.wallet.restoredForm password :=
  ⟨rfl, opensWith, rfl, _, openSealed_encrypt sound opensWith encrypted, rfl⟩

/-- The copy of a session is on the restored wallet. -/
theorem copySession_restored {vault copy : Vault P} (sound : code.Sound)
    (copied : vault.copySession code = .ok copy) :
    ∃ opened, vault.unlocked = some opened ∧
      code.journalValid opened.wallet.db.swapJournal = true ∧
      copy = { vault with
        unlocked := some { opened with wallet := opened.wallet.restoredForm } } := by
  simp only [copySession, session, Guard.bind_eq_ok, Guard.need_eq_ok, Guard.mapError_eq_ok,
    Except.ok.injEq] at copied
  obtain ⟨opened, unlocked, back, imported, rfl⟩ := copied
  obtain ⟨rfl, valid⟩ := eq_restoredForm_of_importState sound imported
  exact ⟨opened, unlocked, valid, rfl⟩

theorem newSession {salt : FixedBytes 16} {key : Bytes32} {password : Text}
    (valid : code.journalValid wallet.db.swapJournal = true)
    (derived : deriveKey code password (saltOf (newHead wallet.network salt)) = .ok key) :
    (Unlocked.mk key (newHead wallet.network salt) wallet).OpensWith code wallet.network
      password :=
  ⟨headFor_newHead _ _, derived, valid, rfl⟩

/-- A new vault is on the wallet that it was made of. -/
theorem sealsAs_of_create {vault : Vault P} {password : Text} {salt : Option (FixedBytes 16)}
    {nonce : Option (FixedBytes 24)} (sound : code.Sound)
    (created : create code wallet password salt nonce = .ok vault) :
    ∃ opened, SealsAs code wallet.network vault opened wallet.restoredForm password := by
  simp only [create, Guard.bind_eq_ok, Guard.refuse_eq_ok, Guard.need_eq_ok,
    Guard.mapError_eq_ok, Except.ok.injEq] at created
  obtain ⟨_, _, _, _, back, imported, drawn, _, key, derived, sealed, encrypted, rfl⟩ := created
  obtain ⟨rfl, valid⟩ := eq_restoredForm_of_importState sound imported
  exact ⟨_, sealsAs_of_encrypt sound (newSession valid derived) encrypted⟩

/-- A vault with a new password is on the same wallet. -/
theorem sealsAs_of_changePassword {vault replaced : Vault P} {opened : Unlocked P}
    {password : Text} {salt : Option (FixedBytes 16)} {nonce : Option (FixedBytes 24)}
    (sound : code.Sound) (unlocked : vault.unlocked = some opened)
    (changed : vault.changePassword code password salt nonce = (.ok (), replaced)) :
    ∃ next, SealsAs code opened.wallet.network replaced next opened.wallet.restoredForm
      password := by
  rw [changePassword, publish_eq_ok] at changed
  simp only [session, unlocked, Guard.bind_eq_ok, Guard.refuse_eq_ok, Guard.need_eq_ok,
    Guard.mapError_eq_ok, Except.ok.injEq] at changed
  obtain ⟨_, current, _, _, _, _, back, imported, drawn, _, key, derived, sealed, encrypted,
    rfl⟩ := changed
  obtain rfl := Option.some.inj current
  obtain ⟨rfl, valid⟩ := eq_restoredForm_of_importState sound imported
  exact ⟨_, sealsAs_of_encrypt sound (newSession valid derived) encrypted⟩

/-- A snapshot of an open vault is on its wallet. -/
theorem sealsAs_of_snapshot {vault saved : Vault P} {opened : Unlocked P} {password : Text}
    {nonce : Option (FixedBytes 24)} (sound : code.Sound) (unlocked : vault.unlocked = some opened)
    (opensWith : opened.OpensWith code network password)
    (snapped : vault.snapshot code nonce = (.ok (), saved)) :
    SealsAs code network saved opened opened.wallet.restoredForm password := by
  simp only [snapshot, unlocked, publish_eq_ok] at snapped
  cases encrypted : opened.encrypt code nonce with
  | error error =>
      rw [encrypted] at snapped
      cases snapped
  | ok sealed =>
      rw [encrypted] at snapped
      cases snapped
      have seals := sealsAs_of_encrypt sound opensWith encrypted
      exact ⟨rfl, seals.opensWith, rfl, seals.unseals⟩

end Sealing

end Vault

end Nightfall
