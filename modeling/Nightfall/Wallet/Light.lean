import Nightfall.Consensus.Chain
import Nightfall.Wallet.Scan

/-!
# Scanning a light feed

A node serves the outputs and the spent commitments of a run of blocks as one page.
`ingestAnchoredScanPage` checks a page against the anchor and its own rules and then
ingests it; `beginLightRescan` forgets every chain observation first.
-/

namespace Nightfall

/-- One output from the light-client feed. -/
structure LightOutput where
  height : UInt64
  timestamp : UInt64
  commit : Text
  ephemeralPk : Text
  outputPk : Text
  viewTag : UInt8
  payload : Text
  coinbase : Bool
  deriving DecidableEq

namespace LightOutput

def asCandidate (output : LightOutput) : Option ScanCandidate := do
  let commit ← decode32 output.commit
  let ephemeralPk ← decode32 output.ephemeralPk
  let outputPk ← decode32 output.outputPk
  let payload ← Hex.decode output.payload
  some
    { commit := commit
      ephemeralPk := ephemeralPk
      outputPk := outputPk
      viewTag := output.viewTag
      payload := payload }

end LightOutput

/-- The parts of a feed page that a wallet ingests. -/
structure ScanPage where
  outputs : List LightOutput
  spent : List Text
  scannedTo : UInt64
  deriving DecidableEq

/-- One output of a block as the feed serves it. -/
def Block.lightOutput (block : Block) (output : Output) : LightOutput where
  height := block.height
  timestamp := block.header.timestampUnix
  commit := output.commit.toHex
  ephemeralPk := output.ephemeralPk.toHex
  outputPk := output.outputPk.toHex
  viewTag := output.viewTag
  payload := Hex.encode output.payload
  coinbase := output.features.isCoinbase

/-- The page over a list of blocks that was asked for from a height. -/
def scanFeed (start : UInt64) (blocks : List Block) : ScanPage where
  outputs := blocks.flatMap fun block => block.body.outputs.map block.lightOutput
  spent := blocks.flatMap fun block => block.body.inputCommits.map Bytes32.toHex
  scannedTo := blocks.foldl (fun highest block => max highest block.height) start

variable {P : Primitives}

/-- One page of the light-client feed of a node. -/
def scanFeedSnapshot (chain : Chain P) (start : UInt64) (limit : Nat) : ScanPage :=
  scanFeed start (chain.blocksFrom start.toNat limit)

namespace WalletFile

/-! ## Ingesting a page -/

/-- `outputs_share_spent_with_us`. -/
def sharesSpent (spent known : List Commitment) : Bool :=
  spent.any fun commit => commit ∈ known

/-- The owned outputs of a page that the wallet did not know when the page began. -/
def discoveredInPage (scanner : Scanner P) (known : List Commitment)
    (outputs : List LightOutput) : List (LightOutput × DiscoveredOutput P) :=
  outputs.filterMap fun output => do
    let candidate ← output.asCandidate
    if candidate.commit ∈ known then none
    else (scanner.scan candidate).map fun found => (output, found)

/-- Height and time given to every send that a page settles. -/
def pageHeight (outputs : List LightOutput) (scannedTo : UInt64) : UInt64 :=
  if outputs = [] then scannedTo else (outputs.map LightOutput.height).foldl max 0

def pageTime (outputs : List LightOutput) : UInt64 :=
  (outputs.map LightOutput.timestamp).foldl max 0

/-- A discovery is recorded already with the same id and direction. -/
def sameReceipt (recorded entry : HistoryEntry) : Bool :=
  recorded.txid == entry.txid && recorded.direction == entry.direction

/-- Ingest one page of the feed.  Returns the new state and the number of outputs
found. -/
def ingestScanPage (scanner : Scanner P) (page : ScanPage) (db : WalletFile) :
    WalletFile × Nat :=
  let known := db.known
  let spent := page.spent.filterMap decode32
  let found := discoveredInPage scanner known page.outputs
  let newHistory := (found.filter fun (output, _) =>
      output.coinbase || !sharesSpent spent known).map
    fun (output, discovery) =>
      discovery.incoming output.height output.timestamp output.coinbase
  let confirmed := (db.pendingSends.filter fun (_, commits) =>
      commits ≠ [] ∧ ∀ commit ∈ commits, commit ∈ spent).map
    fun (txid, _) => (txid, pageHeight page.outputs page.scannedTo, pageTime page.outputs)
  ({ db with
      outputs := markSpent spent
        (db.outputs ++ found.map fun (output, discovery) =>
          discovery.owned output.height output.coinbase)
      history := sortHistory
        (appendNew sameReceipt newHistory (confirmAll confirmed db.history))
      scannedTo := max db.scannedTo page.scannedTo },
    found.length)

/-! ## Anchored pages -/

/-- The checks of one served output that need no other output. -/
def checkLightOutput (start scannedTo : UInt64) (output : LightOutput) :
    Except WalletError ScanCandidate := do
  Guard.refuse (¬(start ≤ output.height ∧ output.height ≤ scannedTo)) .outputOutsideRange
  Guard.need output.asCandidate .malformedOutput

/-- The checks of a served output behind the test for duplicates. -/
def checkCandidate (P : Primitives) (candidate : ScanCandidate) : Except WalletError Unit := do
  -- Encrypted amount (8), blind (32), memo (64), AEAD tag (16).
  Guard.refuse (candidate.payload.length ≠ 120) .payloadLength
  Guard.each
    (fun point => Guard.refuse ((P.decompress point).isNone) .invalidPoint)
    [candidate.commit, candidate.ephemeralPk, candidate.outputPk]

/-- Every served output lies in the range, decodes, is new on the page and has a payload
of the right length and valid points. -/
def checkLightOutputs (P : Primitives) (start scannedTo : UInt64) :
    List Commitment → List LightOutput → Except WalletError Unit
  | _, [] => .ok ()
  | seen, output :: rest => do
      let candidate ← checkLightOutput start scannedTo output
      Guard.refuse (candidate.commit ∈ seen) .duplicateScanOutput
      checkCandidate P candidate
      checkLightOutputs P start scannedTo (candidate.commit :: seen) rest

/-- The first block of a page is the anchor or, without one, that at the birth height. -/
def checkPageStart (db : WalletFile) (start : UInt64) (firstHash : Hash256) :
    Except WalletError Unit :=
  if db.scannedTip.isEmpty then
    Guard.refuse (start ≠ db.birthHeight) .initialPageNotAtBirth
  else
    Guard.refuse (decode32 db.scannedTip ≠ some firstHash) (.chainChanged db.scannedTo)

/-- Every check of an anchored page, none of which changes the wallet.  Returns the
hash of the last block. -/
def checkAnchoredPage (P : Primitives) (db : WalletFile) (page : ScanPage) (start : UInt64)
    (startHash scannedHash : Text) : Except WalletError Hash256 := do
  let firstHash ← Guard.need (decode32 startHash) .invalidScanHash
  let lastHash ← Guard.need (decode32 scannedHash) .invalidScanHash
  Guard.refuse (¬(start = db.scanFrom ∧ page.scannedTo ≥ start)) .pageDoesNotContinue
  Guard.refuse (¬page.scannedTo - start < 1024) .pageTooLong
  Guard.refuse (start = page.scannedTo ∧ firstHash ≠ lastHash) .singleBlockHashes
  Guard.refuse db.needsLightRebuild .historyWithoutAnchor
  db.checkPageStart start firstHash
  checkLightOutputs P start page.scannedTo [] page.outputs
  Guard.refuse (¬page.spent.all fun text => (decode32 text).isSome) .malformedSpent
  .ok lastHash

end WalletFile

namespace Wallet

/-- Ingest one page and save. -/
def ingestScanPage (S : Sealing) (wallet : Wallet P) (page : ScanPage) :
    Except WalletError Nat × Wallet P :=
  let (db, found) := wallet.db.ingestScanPage (wallet.scanner S) page
  let scanned := { wallet with db := db }
  (scanned.save.map fun _ => found, scanned)

/-- Ingest a page whose boundary hashes the caller checked against one node. -/
def ingestAnchoredScanPage (S : Sealing) (wallet : Wallet P) (page : ScanPage)
    (start : UInt64) (startHash scannedHash : Text) : Except WalletError Nat × Wallet P :=
  if wallet.persist then (.error .needsMemory, wallet)
  else
    match wallet.db.checkAnchoredPage P page start startHash scannedHash with
    | .error error => (.error error, wallet)
    | .ok lastHash =>
        match wallet.ingestScanPage S page with
        | (.error error, scanned) => (.error error, scanned)
        | (.ok found, scanned) =>
            let anchored :=
              { scanned with db := { scanned.db with scannedTip := lastHash.toHex } }
            (anchored.save.map fun _ => found, anchored)

/-- Rebuild chain discoveries without erasing signed sends.  Every old send is withheld
and pending until the new scan observes its inputs. -/
def beginLightRescan (wallet : Wallet P) : Except WalletError Unit × Wallet P :=
  if wallet.persist then (.error .needsMemory, wallet)
  else if ¬(wallet.db.swapJournal.isEmpty ∧ wallet.db.reserved.isEmpty) then
    (.error .swapOrReservations, wallet)
  else
    let rescanned := { wallet with
      db := { wallet.db with
        outputs := []
        history := (wallet.db.history.filter fun entry => entry.direction == .sent).map
          fun entry => { entry with height := none, quarantined := true }
        scannedTo := wallet.db.birthHeight
        scannedTip := [] } }
    (rescanned.save, rescanned)

end Wallet

end Nightfall
