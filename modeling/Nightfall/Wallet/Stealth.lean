import Nightfall.Crypto

/-!
# Discovering stealth outputs

What a wallet reads of an output, and the test whether the output belongs to it.  The
authenticated cipher and the lossy text decoder come from outside the repository.
-/

namespace Nightfall

/-- A text, as its UTF-8 bytes. -/
abbrev Text := Bytes

/-- Code outside the repository that opens a payload. -/
structure Sealing where
  /-- `XChaCha20Poly1305` decryption of a payload under a key and a nonce. -/
  decrypt : Bytes32 → Bytes → Bytes → Option Bytes
  /-- `String::from_utf8_lossy`. -/
  utf8Lossy : Bytes → Text

namespace Domain

def stealthShared : Bytes := ascii "nightfall:stealth:shared:v2"
def stealthKeyOffset : Bytes := ascii "nightfall:stealth:ko:v2"
def stealthViewTag : Bytes := ascii "nightfall:stealth:viewtag:v3"
def stealthAead : Bytes := ascii "nightfall:stealth:aead:v2"
def stealthNonce : Bytes := ascii "nightfall:stealth:nonce:v2"
def deriveScan : Bytes := ascii "nightfall:derive:scan:v2"
def deriveSpend : Bytes := ascii "nightfall:derive:spend:v2"

end Domain

def memoLen : Nat := 64

/-- Value, blinding factor and memo. -/
def payloadLen : Nat := 8 + 32 + memoLen

variable (P : Primitives)

/-! ## Keys -/

/-- A scalar from two domain-separated hashes, by wide reduction. -/
def blindFromBytes (domain : Bytes) (material : Bytes) : P.Scalar :=
  let a := hashMulti P domain [material, ascii "0"]
  let b := hashMulti P domain [material, ascii "1"]
  P.scalarFromWide (a.toBytes ++ b.toBytes)

/-- Watch-only key: detects and decrypts outputs. -/
structure ViewKey where
  scanSk : P.Scalar
  spendPk : Bytes32
  deriving DecidableEq

structure WalletKeys where
  seed : Bytes32
  scanSk : P.Scalar
  spendSk : P.Scalar
  deriving DecidableEq

namespace WalletKeys

/-- Both secrets are derived like a blinding factor, in domains of their own. -/
def fromSeed (seed : Bytes32) : WalletKeys P where
  seed := seed
  scanSk := blindFromBytes P Domain.deriveScan seed.toBytes
  spendSk := blindFromBytes P Domain.deriveSpend seed.toBytes

variable {P}

def viewKey (keys : WalletKeys P) : ViewKey P where
  scanSk := keys.scanSk
  spendPk := P.compress (keys.spendSk • P.generatorG)

end WalletKeys

/-- `v·G + b·H`. -/
def commitNew (value : UInt64) (blind : P.Scalar) : Commitment :=
  Commitment.fromPoint P ((value.toNat : P.Scalar) • P.generatorG + blind • P.generatorH)

/-! ## Shared secrets -/

def sharedSecret (point : P.Point) : Bytes32 :=
  hashMulti P Domain.stealthShared [(P.compress point).toBytes]

def deriveKeyOffset (secret : Bytes32) : P.Scalar :=
  blindFromBytes P Domain.stealthKeyOffset secret.toBytes

/-- One byte of the shared secret, published with the output. -/
def deriveViewTag (secret : Bytes32) : UInt8 :=
  (hashMulti P Domain.stealthViewTag [secret.toBytes]).toBytes.headD 0

def deriveAead (secret : Bytes32) : Bytes32 × Bytes :=
  (hashMulti P Domain.stealthAead [secret.toBytes],
    (hashMulti P Domain.stealthNonce [secret.toBytes]).toBytes.take 24)

/-! ## Scanning -/

/-- The parts of an output that a scanner reads. -/
structure ScanCandidate where
  commit : Commitment
  ephemeralPk : Bytes32
  outputPk : Bytes32
  viewTag : UInt8
  payload : Bytes
  deriving DecidableEq

def ScanCandidate.fromOutput (output : Output) : ScanCandidate where
  commit := output.commit
  ephemeralPk := output.ephemeralPk
  outputPk := output.outputPk
  viewTag := output.viewTag
  payload := output.payload

/-- What the receiver recovers when an output is theirs. -/
structure DiscoveredOutput where
  value : UInt64
  blind : P.Scalar
  keyOffset : P.Scalar
  memo : Text
  commit : Commitment
  outputPk : Bytes32
  deriving DecidableEq

/-- `u64::from_le_bytes`. -/
def u64FromLeBytes (bytes : Bytes) : UInt64 :=
  UInt64.ofNat (bytes.foldr (fun byte total => byte.toNat + 256 * total) 0)

/-- `trim_end_matches('\0')`. -/
def trimNul (text : Text) : Text :=
  text.rdropWhile (· == 0)

/-- Open the plaintext of a payload, if the commitment opens to the stated value. -/
def openPlain (S : Sealing) (candidate : ScanCandidate) (offset : P.Scalar) (plain : Bytes) :
    Option (DiscoveredOutput P) :=
  if plain.length ≠ payloadLen then none
  else do
    let value := u64FromLeBytes (plain.take 8)
    let blindBytes ← Bytes32.ofBytes ((plain.drop 8).take 32)
    let blind ← P.scalarFromBytes blindBytes
    if commitNew P value blind ≠ candidate.commit then none
    else
      some
        { value := value
          blind := blind
          keyOffset := offset
          memo := trimNul (S.utf8Lossy (plain.drop 40))
          commit := candidate.commit
          outputPk := candidate.outputPk }

/-- Test whether an output belongs to this view key and, if so, open it. -/
def scanCandidate (S : Sealing) (view : ViewKey P) (candidate : ScanCandidate) :
    Option (DiscoveredOutput P) := do
  let ke ← P.decompress candidate.ephemeralPk
  let spendPoint ← P.decompress view.spendPk
  let secret := sharedSecret P (view.scanSk • ke)
  if deriveViewTag P secret ≠ candidate.viewTag then none
  else
    let offset := deriveKeyOffset P secret
    if P.compress (spendPoint + offset • P.generatorG) ≠ candidate.outputPk then none
    else
      let (key, nonce) := deriveAead P secret
      let plain ← S.decrypt key nonce candidate.payload
      openPlain P S candidate offset plain

/-- A deterministic scan that reports the commitment it was asked about. -/
structure Scanner where
  scan : ScanCandidate → Option (DiscoveredOutput P)
  commit_of_scan : ∀ {candidate found}, scan candidate = some found →
    found.commit = candidate.commit

variable {P}

theorem openPlain_commit {S : Sealing} {candidate : ScanCandidate} {offset : P.Scalar}
    {plain : Bytes} {found : DiscoveredOutput P}
    (opened : openPlain P S candidate offset plain = some found) :
    found.commit = candidate.commit := by
  unfold openPlain at opened
  split at opened
  · simp at opened
  · simp only [Option.bind_eq_bind, Option.bind_eq_some_iff] at opened
    obtain ⟨blindBytes, _, blind, _, opened⟩ := opened
    split at opened
    · simp at opened
    · cases opened
      rfl

/-- The scan with a view key. -/
def ViewKey.scanner (S : Sealing) (view : ViewKey P) : Scanner P where
  scan := scanCandidate P S view
  commit_of_scan := by
    intro candidate found scanned
    simp only [scanCandidate, Option.bind_eq_bind, Option.bind_eq_some_iff] at scanned
    obtain ⟨ke, _, spendPoint, _, scanned⟩ := scanned
    split at scanned
    · simp at scanned
    · split at scanned
      · simp at scanned
      · simp only [Option.bind_eq_some_iff] at scanned
        obtain ⟨plain, _, opened⟩ := scanned
        exact openPlain_commit opened

/-- `scan_output`. -/
def Scanner.scanOutput (scanner : Scanner P) (output : Output) : Option (DiscoveredOutput P) :=
  scanner.scan (.fromOutput output)

theorem Scanner.commit_of_scanOutput (scanner : Scanner P) {output : Output}
    {found : DiscoveredOutput P} (scanned : scanner.scanOutput output = some found) :
    found.commit = output.commit :=
  scanner.commit_of_scan scanned

end Nightfall
