import Nightfall.Consensus.Block
import Nightfall.Ledger.Tx
import Nightfall.Wallet.Stealth

/-!
# The wallet file

Owned outputs, the activity list and the scan position of a wallet, with the questions
that the scans and the payments ask about them.
-/

namespace Nightfall

/-- An output this wallet owns, as persisted. -/
structure OwnedOutput where
  commit : Commitment
  value : UInt64
  blindHex : Text
  keyOffsetHex : Text
  memo : Text
  height : UInt64
  spent : Bool
  isCoinbase : Bool
  deriving DecidableEq

/-- Which way value moved. -/
inductive Direction where
  | received
  | sent
  | mined
  deriving DecidableEq

/-- One line in the activity list. -/
structure HistoryEntry where
  direction : Direction
  amount : UInt64
  fee : UInt64
  memo : Text
  /-- `none` while the transaction is not in a block. -/
  height : Option UInt64
  /-- Transaction id of a send, output commitment of a receipt. -/
  txid : Text
  timestamp : UInt64
  /-- Commitments this entry spent. -/
  spentCommits : List Commitment
  /-- The transaction that the stored text parses to. -/
  raw : Option Transaction
  /-- Withheld from automatic re-sending. -/
  quarantined : Bool
  /-- Released after validation against the chain. -/
  failed : Bool
  deriving DecidableEq

namespace HistoryEntry

def isPending (entry : HistoryEntry) : Bool :=
  entry.height.isNone && !entry.failed

/-- A send that is neither in a block nor released. -/
def isPendingSend (entry : HistoryEntry) : Bool :=
  entry.direction == .sent && entry.isPending

def needsOwnerDecision (entry : HistoryEntry) : Bool :=
  entry.quarantined && entry.isPending

/-- Position in the activity list: unconfirmed entries come first. -/
def sortKey (entry : HistoryEntry) : UInt64 :=
  entry.height.getD (UInt64.ofNat (2 ^ 64 - 1))

end HistoryEntry

/-- The persisted state of a wallet. -/
structure WalletFile where
  outputs : List OwnedOutput
  /-- Height already scanned. -/
  scannedTo : UInt64
  history : List HistoryEntry
  birthHeight : UInt64
  /-- Commitments held by an in-progress swap. -/
  reserved : List Text
  /-- Hash of the block at `scannedTo`.  Empty means unknown. -/
  scannedTip : Text
  /-- Recovery records of swaps. -/
  swapJournal : List Text
  deriving DecidableEq

inductive WalletError where
  | scanAnchorMissing (scannedTo : UInt64)
  | historyWithoutAnchor
  | chainChanged (height : UInt64)
  | rebaseWithoutBlocks
  | rebaseStart (birthHeight start : UInt64)
  | chainGap (height : UInt64)
  | rebaseNotBelow (last scannedTo : UInt64)
  | needsMemory
  | invalidScanHash
  | pageDoesNotContinue
  | pageTooLong
  | singleBlockHashes
  | initialPageNotAtBirth
  | outputOutsideRange
  | malformedOutput
  | duplicateScanOutput
  | payloadLength
  | invalidPoint
  | malformedSpent
  | swapOrReservations
  | swapRecoveryExists
  | badScalar
  | insufficientFunds (available target : UInt64)
  | tooManyCoins
  | amountOverflow
  | immatureReserved
  | reservedTooSmall (total target : UInt64)
  | differentWallet
  | notSaved
  deriving DecidableEq

/-- Where a wallet saves: nowhere, or in a file whose next write succeeds or fails. -/
inductive Storage where
  | memory
  | file (writes : Bool)
  deriving DecidableEq

structure Wallet (P : Primitives) where
  keys : WalletKeys P
  network : NetworkId
  db : WalletFile
  storage : Storage

namespace WalletFile

/-! ## Commitments the wallet speaks about -/

/-- Every commitment the wallet owns an output for. -/
def known (db : WalletFile) : List Commitment :=
  db.outputs.map OwnedOutput.commit

/-- The sends that wait for their inputs to be consumed, with these inputs. -/
def pendingSends (db : WalletFile) : List (Text × List Commitment) :=
  (db.history.filter HistoryEntry.isPendingSend).map fun entry =>
    (entry.txid, entry.spentCommits)

/-- Inputs of sends that are still unresolved, whatever a scan said about them. -/
def pendingInputCommits (db : WalletFile) : List Commitment :=
  (db.history.filter HistoryEntry.isPendingSend).flatMap HistoryEntry.spentCommits

def isReserved (db : WalletFile) (commit : Commitment) : Bool :=
  db.reserved.contains commit.toHex

theorem mem_pendingInputCommits {db : WalletFile} {commit : Commitment} :
    commit ∈ db.pendingInputCommits ↔
      ∃ entry ∈ db.history, entry.isPendingSend ∧ commit ∈ entry.spentCommits := by
  simp [pendingInputCommits, and_assoc]

/-! ## The scan position -/

/-- Observations, as opposed to a fresh wallet's requested birth height. -/
def hasScannedHistory (db : WalletFile) : Bool :=
  db.scannedTo > db.birthHeight || !db.scannedTip.isEmpty || !db.outputs.isEmpty ||
    !db.history.isEmpty || !db.reserved.isEmpty

def needsLightRebuild (db : WalletFile) : Bool :=
  db.scannedTip.isEmpty && db.hasScannedHistory &&
    !(db.scannedTo == db.birthHeight && db.outputs.isEmpty && db.reserved.isEmpty &&
      db.history.all fun entry =>
        entry.direction == .sent && entry.isPending && entry.quarantined)

/-- Observations that are not tied to a known chain. -/
def needsCanonicalPass (db : WalletFile) : Bool :=
  db.scannedTip.isEmpty && db.hasScannedHistory

/-- The height a sync should start requesting blocks from. -/
def scanFrom (db : WalletFile) : UInt64 :=
  max db.scannedTo db.birthHeight

/-! ## Parts that every scan has in common -/

/-- Set the spent flag of every output that a scan saw consumed. -/
def markSpent (spent : List Commitment) (outputs : List OwnedOutput) : List OwnedOutput :=
  outputs.map fun output =>
    if output.commit ∈ spent then { output with spent := true } else output

/-- Confirm the first unconfirmed entry with this id. -/
def confirmFirst (txid : Text) (height timestamp : UInt64) :
    List HistoryEntry → List HistoryEntry
  | [] => []
  | entry :: rest =>
      if entry.txid = txid ∧ entry.height.isNone then
        { entry with height := some height, timestamp := timestamp } :: rest
      else entry :: confirmFirst txid height timestamp rest

/-- Promote pending sends to confirmed, one after the other. -/
def confirmAll (confirmed : List (Text × UInt64 × UInt64)) (history : List HistoryEntry) :
    List HistoryEntry :=
  confirmed.foldl
    (fun history (txid, height, timestamp) => confirmFirst txid height timestamp history) history

/-- Append discoveries, skipping an entry that `same` finds recorded already. -/
def appendNew (same : HistoryEntry → HistoryEntry → Bool) (found history : List HistoryEntry) :
    List HistoryEntry :=
  found.foldl
    (fun history entry =>
      if history.any fun recorded => same recorded entry then history else history ++ [entry])
    history

/-- Newest first, unconfirmed before all.  The sort is stable. -/
def sortHistory (history : List HistoryEntry) : List HistoryEntry :=
  history.insertionSort fun left right => right.sortKey ≤ left.sortKey

end WalletFile

/-- The record of an output that a scan found at a height. -/
def DiscoveredOutput.owned {P : Primitives} (found : DiscoveredOutput P) (height : UInt64)
    (isCoinbase : Bool) : OwnedOutput where
  commit := found.commit
  value := found.value
  blindHex := (P.scalarToBytes found.blind).toHex
  keyOffsetHex := (P.scalarToBytes found.keyOffset).toHex
  memo := found.memo
  height := height
  spent := false
  isCoinbase := isCoinbase

/-- The activity line of an output that came from outside. -/
def DiscoveredOutput.incoming {P : Primitives} (found : DiscoveredOutput P)
    (height timestamp : UInt64) (isCoinbase : Bool) : HistoryEntry where
  direction := if isCoinbase then .mined else .received
  amount := found.value
  fee := 0
  memo := found.memo
  height := some height
  txid := found.commit.toHex
  timestamp := timestamp
  spentCommits := []
  raw := none
  quarantined := false
  failed := false

namespace Wallet

variable {P : Primitives}

def persist (wallet : Wallet P) : Bool :=
  wallet.storage != .memory

/-- An in-memory wallet has nothing to write. -/
def save (wallet : Wallet P) : Except WalletError Unit :=
  match wallet.storage with
  | .memory => .ok ()
  | .file writes => if writes then .ok () else .error .notSaved

/-- A wallet that never writes a file. -/
def inMemory (network : NetworkId) (keys : WalletKeys P) (birthHeight : UInt64) : Wallet P where
  keys := keys
  network := network
  db :=
    { outputs := []
      scannedTo := birthHeight
      history := []
      birthHeight := birthHeight
      reserved := []
      scannedTip := []
      swapJournal := [] }
  storage := .memory

def scanner (S : Sealing) (wallet : Wallet P) : Scanner P :=
  wallet.keys.viewKey.scanner S

@[simp] theorem save_of_memory {wallet : Wallet P} (memory : wallet.storage = .memory) :
    wallet.save = .ok () := by
  simp [save, memory]

end Wallet

end Nightfall
