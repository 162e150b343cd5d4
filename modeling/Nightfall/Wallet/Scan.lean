import Nightfall.Wallet.State

/-!
# Scanning whole blocks

`scanBlocks` reads a list of blocks, marks what they spend, confirms sends by their
inputs and, when the list is the whole history of the wallet, reconciles the stored
state with it.  `rebaseOnShorterChain` forces that last step.
-/

namespace Nightfall

variable {P : Primitives}

namespace Block

def height (block : Block) : UInt64 :=
  block.header.height

/-- Does every block sit one above the one before, from `start` on? -/
def consecutiveFrom (start : UInt64) (blocks : List Block) : Bool :=
  blocks.zipIdx.all fun (block, index) => block.height == start + UInt64.ofNat index

end Block

namespace WalletFile

/-- A contiguous history from the wallet's beginning through at least everything it
has already seen. -/
def coversCanonicalHistory (blocks : List Block) (birthHeight scannedTo : UInt64)
    (outputs : List OwnedOutput) : Bool :=
  match blocks.head? with
  | none => false
  | some first =>
      let start := first.height
      if start ≠ 0 ∧ start ≠ birthHeight then false
      else if !Block.consecutiveFrom start blocks then false
      else
        let last := (blocks.getLast?.map Block.height).getD start
        let maxOut := (outputs.map OwnedOutput.height).foldl max 0
        last ≥ scannedTo && last ≥ maxOut

/-! ## One pass over the blocks -/

/-- What the loop over the blocks accumulates. -/
structure Pass where
  outputs : List OwnedOutput
  spent : List Commitment
  newHistory : List HistoryEntry
  /-- Confirmed sends, with the height and time of the block that settled them. -/
  confirmed : List (Text × UInt64 × UInt64)
  highest : UInt64
  found : Nat

/-- The pending sends that `spent` settles and that were not settled before. -/
def settle (pending : List (Text × List Commitment)) (spent : List Commitment)
    (height timestamp : UInt64) (confirmed : List (Text × UInt64 × UInt64)) :
    List (Text × UInt64 × UInt64) :=
  pending.foldl
    (fun confirmed (txid, commits) =>
      if commits ≠ [] ∧ (∀ commit ∈ commits, commit ∈ spent) ∧
          ¬confirmed.any fun entry => entry.1 == txid then
        confirmed ++ [(txid, height, timestamp)]
      else confirmed)
    confirmed

/-- The owned outputs of a block that the wallet did not know when the pass began. -/
def discovered (scanner : Scanner P) (known : List Commitment) (block : Block) :
    List (Output × DiscoveredOutput P) :=
  block.body.outputs.filterMap fun output =>
    if output.commit ∈ known then none
    else (scanner.scanOutput output).map fun found => (output, found)

/-- An owned output is change if its block also consumed something the wallet knew. -/
def spendsKnown (known : List Commitment) (block : Block) : Bool :=
  block.body.inputs.any fun input => input.commit ∈ known

/-- The activity lines of a block. -/
def incomingOf (scanner : Scanner P) (known : List Commitment) (block : Block) :
    List HistoryEntry :=
  ((discovered scanner known block).filter fun (output, _) =>
      output.features.isCoinbase || !spendsKnown known block).map
    fun (output, found) =>
      found.incoming block.height block.header.timestampUnix output.features.isCoinbase

/-- The outputs of a block as the wallet records them. -/
def ownedOf (scanner : Scanner P) (known : List Commitment) (block : Block) :
    List OwnedOutput :=
  (discovered scanner known block).map fun (output, found) =>
    found.owned block.height output.features.isCoinbase

def passBlock (scanner : Scanner P) (known : List Commitment)
    (pending : List (Text × List Commitment)) (pass : Pass) (block : Block) : Pass :=
  let spent := pass.spent ++ block.body.inputCommits
  { outputs := pass.outputs ++ ownedOf scanner known block
    spent := spent
    newHistory := pass.newHistory ++ incomingOf scanner known block
    confirmed := settle pending spent block.height block.header.timestampUnix pass.confirmed
    highest := max pass.highest block.height
    found := pass.found + (discovered scanner known block).length }

def startPass (db : WalletFile) (highest : UInt64) : Pass where
  outputs := db.outputs
  spent := []
  newHistory := []
  confirmed := []
  highest := highest
  found := 0

def passOver (scanner : Scanner P) (db : WalletFile) (highest : UInt64)
    (blocks : List Block) : Pass :=
  blocks.foldl (passBlock scanner db.known db.pendingSends) (db.startPass highest)

/-! ## Reconciling with a whole history -/

/-- Does the entry of a dropped output go?  Sends and unreadable ids stay. -/
def keepsEntry (dropped : List Commitment) (entry : HistoryEntry) : Bool :=
  match entry.direction with
  | .received | .mined =>
      match decode32 entry.txid with
      | some commit => !dropped.contains commit
      | none => true
  | .sent => true

/-- A send whose inputs are not consumed any more waits again, withheld. -/
def unconfirm (spent : List Commitment) (entry : HistoryEntry) : HistoryEntry :=
  if entry.direction = .sent ∧ entry.height.isSome ∧
      ¬(entry.spentCommits ≠ [] ∧ ∀ commit ∈ entry.spentCommits, commit ∈ spent) then
    { entry with height := none, quarantined := true }
  else entry

/-- Drop what the chain no longer contains, and un-confirm what it no longer
confirms. -/
def reconcileWith (blocks : List Block) (spent : List Commitment) (db : WalletFile) :
    WalletFile :=
  let onChain := blocks.flatMap fun block => block.body.outputCommits
  let dropped := db.known.filter fun commit => commit ∉ onChain
  let kept := db.outputs.filter fun output => output.commit ∈ onChain
  { db with
    outputs := kept.map fun output => { output with spent := decide (output.commit ∈ spent) }
    history := (db.history.filter (keepsEntry dropped)).map (unconfirm spent)
    scannedTo :=
      if db.outputs.length ≠ kept.length then (blocks.getLast?.map Block.height).getD 0
      else db.scannedTo }

/-- Reconcile when the blocks are the whole history of the wallet, or when told so. -/
def settleAgainst (blocks : List Block) (spent : List Commitment) (forceCanonical : Bool)
    (merged : WalletFile) : WalletFile :=
  if forceCanonical ∨
      coversCanonicalHistory blocks merged.birthHeight merged.scannedTo merged.outputs then
    reconcileWith blocks spent merged
  else merged

section SettleAgainst

variable (blocks : List Block) (spent : List Commitment) (force : Bool) (merged : WalletFile)

@[simp] theorem settleAgainst_birthHeight :
    (settleAgainst blocks spent force merged).birthHeight = merged.birthHeight := by
  unfold settleAgainst
  split <;> rfl

@[simp] theorem settleAgainst_reserved :
    (settleAgainst blocks spent force merged).reserved = merged.reserved := by
  unfold settleAgainst
  split <;> rfl

@[simp] theorem settleAgainst_scannedTip :
    (settleAgainst blocks spent force merged).scannedTip = merged.scannedTip := by
  unfold settleAgainst
  split <;> rfl

@[simp] theorem settleAgainst_swapJournal :
    (settleAgainst blocks spent force merged).swapJournal = merged.swapJournal := by
  unfold settleAgainst
  split <;> rfl

end SettleAgainst

/-! ## The scan -/

/-- A discovery is recorded already with the same id, direction and amount. -/
def sameIncoming (recorded entry : HistoryEntry) : Bool :=
  recorded.txid == entry.txid && recorded.direction == entry.direction &&
    recorded.amount == entry.amount

variable (P) in
/-- The anchor after a scan: the hash of the block at the height it reached. -/
def anchorAt (blocks : List Block) (height : UInt64) (before : Text) : Text :=
  match blocks.find? fun block => block.height = height with
  | some anchor => (anchor.hash P).toHex
  | none => before

def scanBlocksInner (scanner : Scanner P) (blocks : List Block) (forceCanonical : Bool)
    (db : WalletFile) : WalletFile × Nat :=
  let start :=
    if forceCanonical then (blocks.head?.map Block.height).getD 0 else db.scanFrom
  let pass := passOver scanner db start blocks
  let merged := { db with outputs := markSpent pass.spent pass.outputs }
  let settled := settleAgainst blocks pass.spent forceCanonical merged
  ({ settled with
      history := sortHistory
        (appendNew sameIncoming pass.newHistory (confirmAll pass.confirmed settled.history))
      scannedTo := pass.highest
      scannedTip := anchorAt P blocks pass.highest settled.scannedTip },
    pass.found)

/-- Read-only check that a block is the wallet's anchor. -/
def checkScanAnchor (P : Primitives) (db : WalletFile) (block : Block) :
    Except WalletError Unit := do
  Guard.refuse (block.height ≠ db.scannedTo) (.scanAnchorMissing db.scannedTo)
  if db.scannedTip.isEmpty then Guard.refuse db.hasScannedHistory .historyWithoutAnchor
  else Guard.refuse ((block.hash P).toHex ≠ db.scannedTip) (.chainChanged db.scannedTo)

/-- Refuse a page that continues a chain this wallet was never on. -/
def checkChainContinuity (P : Primitives) (db : WalletFile) (blocks : List Block) :
    Except WalletError Unit :=
  if db.scannedTip.isEmpty then
    Guard.refuse
      (db.hasScannedHistory ∧
        ¬coversCanonicalHistory blocks db.birthHeight db.scannedTo db.outputs)
      .historyWithoutAnchor
  else
    match blocks.head? with
    | none => .ok ()
    | some first =>
        -- A first block at another height is taken for a deliberate rescan.
        if first.height ≠ db.scannedTo then .ok () else db.checkScanAnchor P first

/-- What `rebase_on_shorter_chain` asks of the chain it is given. -/
def checkRebase (db : WalletFile) (blocks : List Block) : Except WalletError Unit := do
  let first ← Guard.need blocks.head? .rebaseWithoutBlocks
  let start := first.height
  Guard.refuse (start ≠ 0 ∧ start ≠ db.birthHeight) (.rebaseStart db.birthHeight start)
  Guard.each
    (fun (entry : Block × Nat) => Guard.refuse (entry.1.height ≠ start + UInt64.ofNat entry.2)
      (.chainGap (start + UInt64.ofNat entry.2)))
    blocks.zipIdx
  let last := (blocks.getLast?.map Block.height).getD start
  Guard.refuse (last ≥ db.scannedTo) (.rebaseNotBelow last db.scannedTo)

end WalletFile

namespace Wallet

/-- Run the pass and save.  A failed save leaves the scanned state in memory. -/
def scanBlocksInner (S : Sealing) (wallet : Wallet P) (blocks : List Block)
    (forceCanonical : Bool) : Except WalletError Nat × Wallet P :=
  let (db, found) := wallet.db.scanBlocksInner (wallet.scanner S) blocks forceCanonical
  let scanned := { wallet with db := db }
  (scanned.save.map fun _ => found, scanned)

/-- Scan blocks for outputs of this wallet and mark spent ones. -/
def scanBlocks (S : Sealing) (wallet : Wallet P) (blocks : List Block) :
    Except WalletError Nat × Wallet P :=
  match wallet.db.checkChainContinuity P blocks with
  | .error error => (.error error, wallet)
  | .ok () => wallet.scanBlocksInner S blocks false

/-- Adopt a node chain that now ends below the wallet's scan position. -/
def rebaseOnShorterChain (S : Sealing) (wallet : Wallet P) (blocks : List Block) :
    Except WalletError Nat × Wallet P :=
  match wallet.db.checkRebase blocks with
  | .error error => (.error error, wallet)
  | .ok () => wallet.scanBlocksInner S blocks true

end Wallet

end Nightfall
