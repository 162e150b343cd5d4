import Nightfall.Consensus.Block

/-!
# The chain

A chain holds the ledger at its tip, the bodies from `firstHeight` on, a compact
header for every height, the cumulative work and the undo records of the most recent
blocks.  Operations that fail part way return the state they leave behind.
-/

namespace Nightfall

variable (P : Primitives)

inductive ConsensusError where
  | tx (source : TxError)
  | feeOutOfRange
  | ledger (source : LedgerError)
  | badVersion (got expected : UInt32)
  | badTxCount
  | badPow
  | checkpointMismatch (height : UInt64) (expected got : Hash256)
  | badDifficulty (got expected : UInt64)
  | badPrev
  | badHeight
  | badReward
  | badTxRoot
  | badUtxoRoot
  | badKernelSum
  | timestampTooFarAhead
  | timestampBeforeMedian
  | reorgTooDeep
  deriving DecidableEq

/-- Work and pre-state of one applied block. -/
structure TipUndo where
  work : Nat
  state : StateUndo
  deriving DecidableEq

structure Chain where
  network : NetworkId
  ledger : LedgerState P
  /-- Full bodies from `firstHeight` onward. -/
  blocks : List Block
  /-- One compact header per height from genesis, even after a prune. -/
  headers : List CompactHeader
  /-- Height of the first kept body. -/
  firstHeight : Nat
  /-- Ledger after the headers below `firstHeight`. -/
  horizon : Option (LedgerState P)
  /-- Cumulative work of the horizon prefix. -/
  horizonWork : Nat
  totalWork : Nat
  /-- Undo of the most recent blocks, oldest first. -/
  undos : List TipUndo
  deriving DecidableEq

/-- Ledger and headers below the first kept body. -/
structure PrunedBase where
  firstHeight : Nat
  horizon : LedgerState P
  horizonWork : Nat
  headers : List CompactHeader

/-- A chain positioned at a fork ancestor, without the historical bodies. -/
structure SuffixTrial where
  trial : Chain P
  basedOn : Hash256
  rewind : Nat
  ourWork : Nat

/-- A verified heavier suffix, ready to splice. -/
structure SuffixReorg where
  ledger : LedgerState P
  headers : List CompactHeader
  suffix : List Block
  undos : List TipUndo
  totalWork : Nat
  rewind : Nat
  basedOn : Hash256

/-- Sum of the works of a block list.  A 128-bit sum of fewer than `2 ^ 64` works does
not overflow. -/
def totalBlockWork (blocks : List Block) : Nat :=
  (blocks.map Block.work).sum

namespace Chain

/-- The empty chain of a network. -/
def newFair (network : NetworkId) : Chain P where
  network := network
  ledger := LedgerState.forNetwork P network
  blocks := []
  headers := []
  firstHeight := 0
  horizon := none
  horizonWork := 0
  totalWork := 0
  undos := []

variable {P}

/-! ## Reading a chain -/

def proofCtx (chain : Chain P) : Bytes :=
  chain.network.proofContext

/-- Are the binding rules in force for a block at `height`? -/
def bindingActiveAt (chain : Chain P) (height : UInt64) : Bool :=
  height ≥ chain.network.bindingForkHeight

def tipHeight (chain : Chain P) : Option UInt64 :=
  (chain.headers.getLast?.map CompactHeader.height).or
    (chain.blocks.getLast?.map fun block => block.header.height)

def nextHeight (chain : Chain P) : UInt64 :=
  match chain.tipHeight with
  | some height => Machine.saturatingAdd height 1
  | none => UInt64.ofNat chain.firstHeight

def blockCount (chain : Chain P) : Nat :=
  if chain.headers ≠ [] then chain.headers.length
  else chain.firstHeight + chain.blocks.length

def tipHash (chain : Chain P) : Hash256 :=
  ((chain.headers.getLast?.map CompactHeader.hash).or
    (chain.blocks.getLast?.map (Block.hash P))).getD (genesisHash P chain.network)

def blockByHeight (chain : Chain P) (height : Nat) : Option Block :=
  if height < chain.firstHeight then none
  else (chain.blocks[height - chain.firstHeight]?).filter fun block =>
    block.header.height.toNat = height

/-- Up to `limit` bodies from `startHeight` on. -/
def blocksFrom (chain : Chain P) (startHeight limit : Nat) : List Block :=
  if startHeight < chain.firstHeight then []
  else (chain.blocks.drop (startHeight - chain.firstHeight)).take limit

def hashAt (chain : Chain P) (height : Nat) : Option Hash256 :=
  (chain.headers[height]?.map CompactHeader.hash).or
    ((chain.blockByHeight height).map (Block.hash P))

def hashChain (chain : Chain P) : List Hash256 :=
  if chain.headers ≠ [] then chain.headers.map CompactHeader.hash
  else chain.blocks.map (Block.hash P)

/-- Snapshot of everything below the first kept body. -/
def prunedBase (chain : Chain P) : Option (PrunedBase P) :=
  if chain.firstHeight = 0 then none
  else chain.horizon.map fun horizon => {
    firstHeight := chain.firstHeight
    horizon := horizon
    horizonWork := chain.horizonWork
    headers := chain.headers.take chain.firstHeight }

/-- Bodies from `firstHeight` through `height`, unless some were discarded. -/
def bodiesThrough (chain : Chain P) (height : Nat) : Option (List Block) :=
  if chain.firstHeight = 0 then some (chain.blocks.take (height + 1))
  else
    let beforeFirst := chain.firstHeight - 1
    if height < beforeFirst then none
    else if height = beforeFirst then some []
    else
      let last := height - chain.firstHeight
      if last ≥ chain.blocks.length then none else some (chain.blocks.take (last + 1))

def difficultyHistory (chain : Chain P) : List (UInt64 × UInt64) :=
  if chain.headers ≠ [] then
    chain.headers.map fun header => (header.timestampUnix, header.difficulty)
  else
    chain.blocks.map fun block => (block.header.timestampUnix, block.header.difficulty)

/-- Difficulty required of the next block. -/
def nextDifficulty (chain : Chain P) : UInt64 :=
  lwmaDifficulty chain.difficultyHistory chain.network.initialDifficulty
    chain.network.minDifficulty

def medianTimePast (chain : Chain P) : UInt64 :=
  Nightfall.medianTimePast <|
    if chain.headers ≠ [] then chain.headers.map CompactHeader.timestampUnix
    else chain.blocks.map fun block => block.header.timestampUnix

/-! ## Applying a block -/

/-- The shape in which a block is validated and kept: below the fork without binding
fields. -/
def storedForm (chain : Chain P) (block : Block) : Block :=
  if !chain.bindingActiveAt block.header.height then block.stripBinding else block

/-- The pin of a height, where there is one. -/
def checkPin (block : Block) : Except ConsensusError Unit :=
  match checkpointAt block.header.height with
  | none => .ok ()
  | some pinned =>
      Guard.refuse (block.hash P ≠ pinned)
        (.checkpointMismatch block.header.height pinned (block.hash P))

/-- Every check of `applyBlockInner` that runs before the ledger is touched. -/
def checkBlock (chain : Chain P) (block : Block) (nowUnix : UInt64) (verifyPow : Bool) :
    Except ConsensusError Unit := do
  Guard.refuse (block.header.version ≠ protocolVersion)
    (.badVersion block.header.version protocolVersion)
  Guard.refuse (block.body.outputs = [] ∨ block.body.kernels = []) .badTxCount
  Guard.refuse block.body.exceedsSizeLimits (.ledger .blockTooLarge)
  Guard.refuse (block.header.height ≠ chain.nextHeight) .badHeight
  Guard.refuse (block.header.prevHash ≠ chain.tipHash) .badPrev
  checkPin (P := P) block
  Guard.refuse
    (verifyPow ∧ block.header.timestampUnix > Machine.saturatingAdd nowUnix maxFutureDriftSecs)
    .timestampTooFarAhead
  Guard.refuse (chain.blockCount > 0 ∧ block.header.timestampUnix ≤ chain.medianTimePast)
    .timestampBeforeMedian
  let expectedDifficulty := chain.nextDifficulty
  Guard.refuse (block.header.difficulty ≠ expectedDifficulty)
    (.badDifficulty block.header.difficulty expectedDifficulty)
  Guard.refuse (verifyPow ∧ ¬block.powIsValid P chain.network.powParams) .badPow
  let subsidy := subsidyAt chain.ledger block.header.height
  Guard.refuse (block.header.rewardDarks ≠ LedgerState.coinbaseDue block.body subsidy) .badReward
  Guard.refuse (block.body.hash P ≠ block.header.bodyRoot) .badTxRoot

variable (P) in
def pushBlock (chain : Chain P) (block : Block) : Chain P :=
  { chain with
    headers := chain.headers ++ [CompactHeader.fromBlock P block]
    blocks := chain.blocks ++ [block] }

/-- Drop the oldest records beyond the reorg depth. -/
def trimUndos (undos : List TipUndo) : List TipUndo :=
  undos.drop (undos.length - maxReorgDepth)

def rememberUndo (chain : Chain P) (state : StateUndo) (work : Nat) : Chain P :=
  { chain with undos := trimUndos (chain.undos ++ [⟨work, state⟩]) }

/-- The chain after a block that left `ledger` behind. -/
def extend (chain : Chain P) (block : Block) (ledger : LedgerState P) (undo : StateUndo) :
    Chain P :=
  ({ chain with
      ledger := ledger
      totalWork := Machine.saturatingAdd128 chain.totalWork block.work }.pushBlock P block
    ).rememberUndo undo block.work

def applyBlockInner (chain : Chain P) (block : Block) (nowUnix : UInt64) (verifyPow : Bool) :
    Guard.Outcome ConsensusError (Chain P) :=
  let block := chain.storedForm block
  match chain.checkBlock block nowUnix verifyPow with
  | .error error => (.error error, chain)
  | .ok () =>
      match chain.ledger.captureUndo block.body with
      | .error error => (.error (.ledger error), chain)
      | .ok undo =>
          let subsidy := subsidyAt chain.ledger block.header.height
          match chain.ledger.applyBlock block.body block.header.height subsidy chain.proofCtx with
          | (.error error, ledger) => (.error (.ledger error), { chain with ledger := ledger })
          | (.ok (), ledger) =>
              if ledger.utxoRoot ≠ block.header.utxoRoot then
                (.error .badUtxoRoot, { chain with ledger := ledger.rewind undo })
              else if ledger.kernelSum ≠ block.header.kernelSum then
                (.error .badKernelSum, { chain with ledger := ledger.rewind undo })
              else (.ok (), chain.extend block ledger undo)

/-- Validate a block in full and commit it to the tip. -/
def applyBlock (chain : Chain P) (block : Block) (nowUnix : UInt64) :
    Guard.Outcome ConsensusError (Chain P) :=
  chain.applyBlockInner block nowUnix true

/-- The same without proof of work and the future bound. -/
def applyBlockLocallyTrusted (chain : Chain P) (block : Block) (nowUnix : UInt64) :
    Guard.Outcome ConsensusError (Chain P) :=
  chain.applyBlockInner block nowUnix false

/-- The linkage checks of a replay. -/
def checkLinkage (chain : Chain P) (block : Block) : Except ConsensusError Unit := do
  Guard.refuse (block.header.version ≠ protocolVersion)
    (.badVersion block.header.version protocolVersion)
  Guard.refuse (block.header.height ≠ chain.nextHeight) .badHeight
  Guard.refuse (block.header.prevHash ≠ chain.tipHash) .badPrev
  checkPin (P := P) block

/-- Replay a block from this node's own file: linkage only. -/
def applyBlockFromOwnDisk (chain : Chain P) (block : Block) :
    Guard.Outcome ConsensusError (Chain P) :=
  let block := chain.storedForm block
  match chain.checkLinkage block with
  | .error error => (.error error, chain)
  | .ok () =>
      match chain.ledger.captureUndo block.body with
      | .error error => (.error (.ledger error), chain)
      | .ok undo =>
          let subsidy := subsidyAt chain.ledger block.header.height
          match chain.ledger.applyBlockStateOnly block.body block.header.height subsidy with
          | (.error error, ledger) => (.error (.ledger error), { chain with ledger := ledger })
          | (.ok (), ledger) => (.ok (), chain.extend block ledger undo)

/-- Extend the tip with sequential blocks, stopping at the first that does not connect.
`applied` counts the blocks taken so far. -/
def ingestFrom (nowUnix : UInt64) :
    Nat → Chain P → List Block → Except ConsensusError Nat × Chain P
  | applied, chain, [] => (.ok applied, chain)
  | applied, chain, block :: rest =>
      match chain.applyBlock block nowUnix with
      | (.ok (), next) => ingestFrom nowUnix (applied + 1) next rest
      | (.error .badPrev, left) => (.ok applied, left)
      | (.error .badHeight, left) => (.ok applied, left)
      | (.error error, left) => if applied > 0 then (.ok applied, left) else (.error error, left)

def tryIngestBlocks (chain : Chain P) (blocks : List Block) (nowUnix : UInt64) :
    Except ConsensusError Nat × Chain P :=
  ingestFrom nowUnix 0 chain blocks

/-! ## Undo window and pruning -/

/-- Work abandoned by rewinding `rewind` blocks, if the window covers that far. -/
def rewoundWork (chain : Chain P) (rewind : Nat) : Option Nat :=
  if rewind > chain.undos.length then none
  else some (((chain.undos.reverse.take rewind).map TipUndo.work).sum)

/-- Advance the horizon over the bodies about to be dropped. -/
def advanceHorizon : LedgerState P × Nat → List Block →
    Guard.Outcome ConsensusError (LedgerState P × Nat)
  | reached, [] => (.ok (), reached)
  | (horizon, work), block :: rest =>
      match horizon.applyBlockStateOnly block.body block.header.height
          (subsidyAt horizon block.header.height) with
      | (.error error, left) => (.error (.ledger error), (left, work))
      | (.ok (), next) =>
          advanceHorizon (next, Machine.saturatingAdd128 work block.work) rest

/-- Where the horizon stands before a prune. -/
def horizonStart (chain : Chain P) : LedgerState P × Nat :=
  match chain.horizon with
  | none => (LedgerState.forNetwork P chain.network, 0)
  | some horizon => (horizon, chain.horizonWork)

/-- Drop bodies older than `keep`, leaving headers and the unspent set. -/
def pruneKeep (chain : Chain P) (keep : Nat) : Except ConsensusError Nat × Chain P :=
  let keep := max keep 1
  if chain.blocks.length ≤ keep then (.ok 0, chain)
  else
    let dropped := chain.blocks.length - keep
    match advanceHorizon chain.horizonStart (chain.blocks.take dropped) with
    | (.error error, (horizon, work)) =>
        (.error error, { chain with horizon := some horizon, horizonWork := work })
    | (.ok (), (horizon, work)) =>
        (.ok dropped, { chain with
          horizon := some horizon
          horizonWork := work
          blocks := chain.blocks.drop dropped
          firstHeight := chain.firstHeight + dropped })

/-! ## Rebuilding a candidate -/

/-- Last applied header must still describe the ledger. -/
def checkTipRoots (chain : Chain P) : Except ConsensusError Unit :=
  match chain.blocks.getLast? with
  | none => .ok ()
  | some tip => do
      Guard.refuse (chain.ledger.utxoRoot ≠ tip.header.utxoRoot) .badUtxoRoot
      Guard.refuse (chain.ledger.kernelSum ≠ tip.header.kernelSum) .badKernelSum

/-- Replay the blocks from position `index` on, the ones before `trustedPrefix` as our
own file and the others in full. -/
def replayFrom (trustedPrefix : Nat) (nowUnix : UInt64) :
    Nat → Chain P → List Block → Except ConsensusError (Chain P)
  | _, chain, [] => .ok chain
  | index, chain, block :: rest =>
      if index < trustedPrefix then do
        let next ← Guard.toExcept (chain.applyBlockFromOwnDisk block)
        replayFrom trustedPrefix nowUnix (index + 1) next rest
      else do
        Guard.onlyIf (index = trustedPrefix && trustedPrefix > 0) chain.checkTipRoots
        let next ← Guard.toExcept (chain.applyBlock block nowUnix)
        replayFrom trustedPrefix nowUnix (index + 1) next rest

variable (P) in
/-- How many leading blocks a pinned height vouches for. -/
def assumeValidTo (network : NetworkId) (blocks : List Block) : Nat :=
  let pinHeight := highestCheckpointHeight.toNat
  if network = .mainnet ∧ pinHeight > 0 ∧ blocks.length > pinHeight ∧ P.assumeValid then
    pinHeight + 1
  else 0

/-- Replay `blocks` from genesis, treating the first `trustedPrefix` as our own file. -/
def rebuildFromBlocksTrustedPrefix (network : NetworkId) (blocks : List Block)
    (trustedPrefix : Nat) (nowUnix : UInt64) : Except ConsensusError (Chain P) := do
  let trustedPrefix := max trustedPrefix (assumeValidTo P network blocks)
  let chain ← replayFrom trustedPrefix nowUnix 0 (newFair P network) blocks
  Guard.onlyIf (trustedPrefix > 0 && trustedPrefix ≥ chain.blockCount) chain.checkTipRoots
  .ok chain

/-- The chain a pruned candidate starts from. -/
def fromPrunedBase (network : NetworkId) (base : PrunedBase P) : Chain P :=
  let horizon := base.horizon.withBindingHeight network.bindingForkHeight
  { newFair P network with
    ledger := horizon
    horizon := some horizon
    horizonWork := base.horizonWork
    firstHeight := base.firstHeight
    headers := base.headers
    totalWork := base.horizonWork }

/-- Replay `blocks` on top of the horizon. -/
def rebuildFromPrunedBase (network : NetworkId) (base : PrunedBase P) (blocks : List Block)
    (trustedPrefix : Nat) (nowUnix : UInt64) : Except ConsensusError (Chain P) := do
  let chain ← replayFrom trustedPrefix nowUnix 0 (fromPrunedBase network base) blocks
  Guard.onlyIf (trustedPrefix > 0 && trustedPrefix ≥ chain.blocks.length) chain.checkTipRoots
  .ok chain

def verifySupply (chain : Chain P) : Except ConsensusError Unit :=
  chain.ledger.verifySupply.mapError fun error => .ledger (.supply error)

variable (P) in
/-- How many leading blocks of `blocks` have the hashes `ourHashes`. -/
def commonPrefix (ourHashes : List Hash256) (blocks : List Block) : Nat :=
  ((blocks.zip ourHashes).takeWhile fun (block, hash) => block.hash P = hash).length

/-- Rebuild a candidate with its shared history trusted. -/
def rebuildCandidate (network : NetworkId) (base : Option (PrunedBase P)) (blocks : List Block)
    (windowCommon common : Nat) (nowUnix : UInt64) : Except ConsensusError (Chain P) :=
  match base with
  | some base => rebuildFromPrunedBase network base blocks windowCommon nowUnix
  | none => rebuildFromBlocksTrustedPrefix network blocks common nowUnix

/-- Decide a reorg without touching an existing chain. -/
def evaluateReorgAt (network : NetworkId) (ourWork : Nat) (ourHashes : List Hash256)
    (base : Option (PrunedBase P)) (blocks : List Block) (nowUnix : UInt64) :
    Except ConsensusError (Option (Chain P)) :=
  match blocks with
  | [] => .ok none
  | first :: _ =>
      let start := (base.map PrunedBase.firstHeight).getD 0
      if first.header.height.toNat ≠ start then .error .badHeight
      else
        let claimedWork := (base.map PrunedBase.horizonWork).getD 0 + totalBlockWork blocks
        if claimedWork ≤ ourWork then .ok none
        else if ourHashes.length < start then .error .reorgTooDeep
        else
          let windowCommon := commonPrefix P (ourHashes.drop start) blocks
          let common := start + windowCommon
          if ourHashes.length - common > maxReorgDepth then .error .reorgTooDeep
          else do
            let candidate ← rebuildCandidate network base blocks windowCommon common nowUnix
            candidate.verifySupply
            .ok (if candidate.totalWork > ourWork then some candidate else none)

/-- Take a rebuilt chain if it still wins. -/
def adoptReorg (chain candidate : Chain P) : Bool × Chain P :=
  if candidate.totalWork > chain.totalWork then (true, candidate) else (false, chain)

/-- Adopt `blocks` if it is a valid chain with more cumulative work. -/
def maybeReorgTo (chain : Chain P) (blocks : List Block) (nowUnix : UInt64) :
    Except ConsensusError Bool × Chain P :=
  match evaluateReorgAt chain.network chain.totalWork chain.hashChain chain.prunedBase blocks
      nowUnix with
  | .error error => (.error error, chain)
  | .ok none => (.ok false, chain)
  | .ok (some candidate) =>
      let (adopted, next) := chain.adoptReorg candidate
      (.ok adopted, next)

/-! ## Suffix reorgs -/

/-- Snapshot this chain at `ancestorHeight` without copying bodies. -/
def prepareSuffixTrial (chain : Chain P) (ancestorHeight : Nat) :
    Except ConsensusError (SuffixTrial P) := do
  let ourTip := (chain.tipHeight.map UInt64.toNat).getD 0
  Guard.refuse (ancestorHeight > ourTip) .badHeight
  let rewind := ourTip - ancestorHeight
  Guard.refuse (rewind > maxReorgDepth ∨ rewind > chain.undos.length) .reorgTooDeep
  Guard.refuse (ancestorHeight ≥ chain.headers.length) .badHeight
  let rewindWork ← Guard.need (chain.rewoundWork rewind) .reorgTooDeep
  Guard.refuse (rewindWork > chain.totalWork) .reorgTooDeep
  .ok {
    trial := { newFair P chain.network with
      ledger := (chain.undos.reverse.take rewind).foldl
        (fun ledger undo => ledger.rewind undo.state) chain.ledger
      totalWork := chain.totalWork - rewindWork
      headers := chain.headers.take (ancestorHeight + 1) }
    basedOn := chain.tipHash
    rewind := rewind
    ourWork := chain.totalWork }

/-- Apply every block of a list in full. -/
def applyAll (nowUnix : UInt64) : Chain P → List Block → Except ConsensusError (Chain P)
  | chain, [] => .ok chain
  | chain, block :: rest => do
      let next ← Guard.toExcept (chain.applyBlock block nowUnix)
      applyAll nowUnix next rest

/-- Apply `suffix` to a trial.  `none` when it would not win. -/
def finishSuffix (trial : SuffixTrial P) (suffix : List Block) (nowUnix : UInt64) :
    Except ConsensusError (Option (SuffixReorg P)) :=
  if suffix = [] then .ok none
  else if Machine.saturatingAdd128 trial.trial.totalWork (totalBlockWork suffix) ≤
      trial.ourWork then .ok none
  else do
    let chain ← applyAll nowUnix trial.trial suffix
    .ok (if chain.totalWork ≤ trial.ourWork then none
      else some {
        ledger := chain.ledger
        headers := chain.headers
        suffix := chain.blocks
        undos := chain.undos
        totalWork := chain.totalWork
        rewind := trial.rewind
        basedOn := trial.basedOn })

/-- Commit a suffix reorg if we are still on the tip it was built against and it is
still heavier. -/
def spliceSuffix (chain : Chain P) (reorg : SuffixReorg P) : Bool × Chain P :=
  if chain.tipHash ≠ reorg.basedOn ∨ reorg.totalWork ≤ chain.totalWork then (false, chain)
  else if reorg.rewind > chain.blocks.length ∨ reorg.rewind > chain.undos.length then
    (false, chain)
  else
    (true, { chain with
      blocks := chain.blocks.take (chain.blocks.length - reorg.rewind) ++ reorg.suffix
      headers := reorg.headers
      ledger := reorg.ledger
      totalWork := reorg.totalWork
      undos := trimUndos (chain.undos.take (chain.undos.length - reorg.rewind) ++
        reorg.undos) })

/-- Mempool admission against the next height. -/
def precheckTxTyped (chain : Chain P) (tx : Transaction) : Except LedgerError Unit :=
  chain.ledger.checkTxAcceptable tx chain.nextHeight chain.proofCtx

end Chain

end Nightfall
