import Nightfall.Wallet.Builder
import Nightfall.Wallet.State

/-!
# Selecting coins and recording sends

`selectCoinsAt` picks coins that no unresolved send and no swap claims, `recordSendAt`
marks them spent and lists the send, and `releaseSends` gives up sends that can no longer
confirm.
-/

namespace Nightfall

variable {P : Primitives}

/-- `OwnedOutput::scalar`. -/
def scalarOfHex (P : Primitives) (text : Text) : Except WalletError P.Scalar := do
  let bytes ← Guard.need (decode32 text) .badScalar
  Guard.need (P.scalarFromBytes bytes) .badScalar

def OwnedOutput.toSpendable (keys : WalletKeys P) (output : OwnedOutput) :
    Except WalletError (Spendable P) := do
  let blind ← scalarOfHex P output.blindHex
  let offset ← scalarOfHex P output.keyOffsetHex
  .ok ⟨output.commit, output.value, blind, keys.spendSk + offset⟩

/-- A coinbase output has aged enough. -/
def OwnedOutput.matureAt (output : OwnedOutput) (tipHeight maturity : UInt64) : Bool :=
  !output.isCoinbase || tipHeight ≥ Machine.saturatingAdd output.height maturity

namespace WalletFile

/-! ## Coin selection -/

/-- May `selectCoinsAt` choose this output? -/
def isSelectable (db : WalletFile) (tipHeight maturity : UInt64) (output : OwnedOutput) : Bool :=
  !output.spent && !db.pendingInputCommits.contains output.commit &&
    !db.isReserved output.commit && (maturity == 0 || output.matureAt tipHeight maturity)

/-- Take coins until they cover the target. -/
def chooseCoins (keys : WalletKeys P) (target : UInt64) :
    UInt64 → List OwnedOutput → Except WalletError (List (Spendable P) × UInt64)
  | total, [] => .ok ([], total)
  | total, output :: rest =>
      if total ≥ target then .ok ([], total)
      else do
        let coin ← output.toSpendable keys
        let (coins, reached) ←
          chooseCoins keys target (Machine.saturatingAdd total output.value) rest
        .ok (coin :: coins, reached)

/-- Selectable outputs, largest first. -/
def availableCoins (db : WalletFile) (tipHeight maturity : UInt64) : List OwnedOutput :=
  (db.outputs.filter (db.isSelectable tipHeight maturity)).insertionSort
    fun left right => right.value ≤ left.value

/-- Pick the fewest outputs that cover `target`, largest first. -/
def selectCoinsAt (keys : WalletKeys P) (db : WalletFile) (target tipHeight maturity : UInt64) :
    Except WalletError (List (Spendable P)) := do
  let available := db.availableCoins tipHeight maturity
  let availableTotal := available.foldl
    (fun total output => Machine.saturatingAdd total output.value) 0
  let (chosen, total) ← chooseCoins keys target 0 (available.take maxInputs)
  Guard.refuse (total < target ∧ availableTotal ≥ target) .tooManyCoins
  Guard.refuse (total < target) (.insufficientFunds availableTotal target)
  .ok chosen

/-- The outputs that a payment from given commitments spends, with their total. -/
def coinsFrom (keys : WalletKeys P) (db : WalletFile) (commits : List Text)
    (tipHeight maturity : UInt64) :
    UInt64 → List OwnedOutput → Except WalletError (List (Spendable P) × UInt64)
  | total, [] => .ok ([], total)
  | total, output :: rest =>
      if output.spent ∨ output.commit ∈ db.pendingInputCommits ∨
          output.commit.toHex ∉ commits then
        coinsFrom keys db commits tipHeight maturity total rest
      else do
        Guard.refuse (maturity ≠ 0 ∧ ¬output.matureAt tipHeight maturity) .immatureReserved
        let coin ← output.toSpendable keys
        let (coins, reached) ← coinsFrom keys db commits tipHeight maturity
          (Machine.saturatingAdd total output.value) rest
        .ok (coin :: coins, reached)

/-! ## Sends -/

/-- Mark the inputs of a broadcast transaction as spent and list it as pending. -/
def recordSendAt (P : Primitives) (tx : Transaction) (amount : UInt64) (memo : Text)
    (timestamp : UInt64) (db : WalletFile) : WalletFile :=
  let spent := tx.inputs.map Input.commit
  let txid := (tx.txid P).toHex
  { db with
    outputs := markSpent spent db.outputs
    history :=
      if db.history.any fun entry => entry.txid == txid then db.history
      else
        { direction := .sent
          amount := amount
          fee := tx.totalFee
          memo := memo
          height := none
          txid := txid
          timestamp := timestamp
          spentCommits := spent
          raw := some tx
          quarantined := false
          failed := false } :: db.history }

/-- A pending send that is on the list becomes a failed one. -/
def failSend (txids : List Text) (entry : HistoryEntry) : HistoryEntry :=
  if entry.isPendingSend ∧ entry.txid ∈ txids then
    { entry with failed := true, quarantined := true }
  else entry

/-- Preserve impossible sends as failed and release only surviving inputs.  Returns how
many were released. -/
def releaseSends (txids : List Text) (unspend : List Commitment) (db : WalletFile) :
    WalletFile × Nat :=
  let removed := db.history.countP fun entry => entry.isPendingSend ∧ entry.txid ∈ txids
  if removed = 0 then (db, 0)
  else
    let failed := { db with history := db.history.map (failSend txids) }
    let stillClaimed := failed.pendingInputCommits
    ({ failed with
        outputs := failed.outputs.map fun output =>
          if output.commit ∈ unspend ∧ output.commit ∉ stillClaimed then
            { output with spent := false }
          else output },
      removed)

/-! ## Swaps and backups -/

/-- Hold these outputs for a swap. -/
def reserveCommits (hexes : List Text) (db : WalletFile) : WalletFile :=
  { db with
    reserved := hexes.foldl
      (fun reserved hex => if reserved.contains hex then reserved else reserved ++ [hex])
      db.reserved }

def releaseCommits (hexes : List Text) (db : WalletFile) : WalletFile :=
  { db with reserved := db.reserved.filter fun hex => !hexes.contains hex }

/-- Mark every unconfirmed outgoing payment as restored from a backup. -/
def quarantinePendingSends (db : WalletFile) : WalletFile :=
  { db with
    history := db.history.map fun entry =>
      if entry.isPendingSend then { entry with quarantined := true } else entry }

/-- Withhold every imported outgoing payment, confirmed ones included. -/
def quarantineImportedSends (db : WalletFile) : WalletFile :=
  { db with
    history := db.history.map fun entry =>
      if entry.direction = .sent then { entry with quarantined := true } else entry }

end WalletFile

namespace Wallet

/-- A kernel offset is attached once the next block is known to be past the fork. -/
def buildRules (wallet : Wallet P) (tipHeight : UInt64) : Bool :=
  tipHeight ≠ 0 ∧ Machine.saturatingAdd tipHeight 1 ≥ wallet.network.bindingForkHeight

inductive PaymentError where
  | wallet (source : WalletError)
  | build (source : BuildError)
  deriving DecidableEq

/-- Build a transfer of `amount` from these coins, with change to the wallet. -/
def buildPayment (C : TransferCrypto P) (draws : TransferDraws P) (wallet : Wallet P)
    (coins : List (Spendable P)) (recipient : Address) (amount fee : UInt64) (memo : Text)
    (tipHeight : UInt64) : Except PaymentError Transaction :=
  (buildTransferWith C draws coins [⟨recipient, amount, memo⟩] fee wallet.keys.address 0
    wallet.network.proofContext (wallet.buildRules tipHeight)).mapError .build

/-- Build a signed payment that selects no immature coinbase output. -/
def createPaymentAt (C : TransferCrypto P) (draws : TransferDraws P) (wallet : Wallet P)
    (recipient : Address) (amount fee : UInt64) (memo : Text) (tipHeight maturity : UInt64) :
    Except PaymentError Transaction := do
  let target ← Guard.need (Machine.checkedAdd amount fee) (.wallet .amountOverflow)
  let inputs ← (wallet.db.selectCoinsAt wallet.keys target tipHeight maturity).mapError .wallet
  wallet.buildPayment C draws inputs recipient amount fee memo tipHeight

/-- Spend specific outputs, including ones currently reserved for a swap. -/
def createPaymentFromCommitsAt (C : TransferCrypto P) (draws : TransferDraws P)
    (wallet : Wallet P) (commits : List Text) (recipient : Address) (amount fee : UInt64)
    (memo : Text) (tipHeight maturity : UInt64) : Except PaymentError Transaction := do
  let (inputs, total) ← (wallet.db.coinsFrom wallet.keys commits tipHeight maturity 0
    wallet.db.outputs).mapError .wallet
  let target ← Guard.need (Machine.checkedAdd amount fee) (.wallet .amountOverflow)
  Guard.refuse (total < target) (.wallet (.reservedTooSmall total target))
  wallet.buildPayment C draws inputs recipient amount fee memo tipHeight

/-- Change the stored state and save.  A failed save leaves the change in memory. -/
def edit (wallet : Wallet P) (change : WalletFile → WalletFile) :
    Except WalletError Unit × Wallet P :=
  let edited := { wallet with db := change wallet.db }
  (edited.save, edited)

/-- Change the stored state and save.  A failed save rolls the change back. -/
def editOrRollBack (wallet : Wallet P) (change : WalletFile → WalletFile) :
    Except WalletError Unit × Wallet P :=
  let edited := { wallet with db := change wallet.db }
  match edited.save with
  | .ok () => (.ok (), edited)
  | .error error => (.error error, wallet)

def recordSendAt (wallet : Wallet P) (tx : Transaction) (amount : UInt64) (memo : Text)
    (timestamp : UInt64) : Except WalletError Unit × Wallet P :=
  wallet.edit (WalletFile.recordSendAt P tx amount memo timestamp)

def releaseSends (wallet : Wallet P) (txids : List Text) (unspend : List Commitment) :
    Except WalletError Nat × Wallet P :=
  let (verdict, released) :=
    wallet.editOrRollBack fun db => (db.releaseSends txids unspend).1
  -- Nothing is saved when nothing was released.
  if (wallet.db.releaseSends txids unspend).2 = 0 then (.ok 0, wallet)
  else (verdict.map fun _ => (wallet.db.releaseSends txids unspend).2, released)

def reserveCommits (wallet : Wallet P) (hexes : List Text) : Except WalletError Unit × Wallet P :=
  wallet.editOrRollBack (WalletFile.reserveCommits hexes)

def releaseCommits (wallet : Wallet P) (hexes : List Text) : Except WalletError Unit × Wallet P :=
  wallet.editOrRollBack (WalletFile.releaseCommits hexes)

/-- Only a change is saved. -/
def editIfChanged (wallet : Wallet P) (change : WalletFile → WalletFile) :
    Except WalletError Unit × Wallet P :=
  if change wallet.db = wallet.db then (.ok (), wallet) else wallet.edit change

/-- Returns how many entries were newly marked. -/
def quarantinePendingSends (wallet : Wallet P) : Except WalletError Nat × Wallet P :=
  let marked := wallet.db.history.countP fun entry => entry.isPendingSend && !entry.quarantined
  let (verdict, edited) := wallet.editIfChanged WalletFile.quarantinePendingSends
  (verdict.map fun _ => marked, edited)

/-- Returns how many sends wait for their owner's decision afterwards. -/
def quarantineImportedSends (wallet : Wallet P) : Except WalletError Nat × Wallet P :=
  let (verdict, edited) := wallet.editIfChanged WalletFile.quarantineImportedSends
  (verdict.map fun _ => edited.db.history.countP HistoryEntry.needsOwnerDecision, edited)

/-- Forget everything discovered and rescan from the birth height. -/
def resetScan (wallet : Wallet P) : Except WalletError Unit × Wallet P :=
  if ¬wallet.db.swapJournal.isEmpty then (.error .swapRecoveryExists, wallet)
  else wallet.edit fun db =>
    { outputs := []
      scannedTo := db.birthHeight
      history := []
      birthHeight := db.birthHeight
      reserved := []
      scannedTip := []
      swapJournal := [] }

end Wallet

end Nightfall
