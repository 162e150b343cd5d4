import Nightfall.Consensus.Chain
import Nightfall.Library.Files
import Nightfall.Storage.Codec

/-!
# The data directory

What `ChainStore` reads from its directory: the format, the metadata, the installation id
and whether the files are the ones that this node validated last.
-/

namespace Nightfall

open Files

inductive FileName where
  | blocksBin
  | blocksJsonl
  | headers
  | horizon
  | chainMeta
  | installId
  /-- The chain of protocol v4. -/
  | legacyChain
  | recoveryJournal
  /-- The JSON chain file that a conversion keeps. -/
  | preBinary
  | snapshot
  /-- The name with `.tmp` behind it. -/
  | temporary (name : FileName)
  deriving DecidableEq

abbrev Datadir := Files.Tree FileName

def Format.fileName : Format → FileName
  | json => .blocksJsonl
  | binary => .blocksBin

namespace Datadir

variable (S : Serde) (dir : Datadir)

/-- The directory after some effects. -/
def after (effects : List (Effect FileName)) : Datadir :=
  run dir effects

/-- Storage encoding in use: binary wins when both files exist, and in an empty
directory. -/
def format : Format :=
  if (dir .blocksBin).isSome then .binary
  else if (dir .blocksJsonl).isSome then .json
  else .binary

def blocksPath : FileName :=
  dir.format.fileName

/-- Size of a file, zero when it is missing. -/
def sizeOf (name : FileName) : Nat :=
  ((dir name).getD []).length

def readMeta : Option ChainMeta :=
  (dir .chainMeta).bind S.metaOfJson

def storedBlockCount : Nat :=
  ((dir.readMeta S).map ChainMeta.blockCount).getD 0

/-- Tip hash recorded alongside the stored blocks, if any. -/
def storedTip : Option Bytes :=
  ((dir.readMeta S).map ChainMeta.validatedTip).filter (· ≠ [])

/-- The id that the directory holds. -/
def storedId : Option Bytes :=
  (((dir .installId).filter fun text => Utf8.isValid text).map Utf8.trim).filter (· ≠ [])

/-- The random id of this directory, made once and kept.  `draw` is what the generator
would make now. -/
def installId (draw : Bytes) : Bytes × List (Effect FileName) :=
  match dir.storedId with
  | some id => (id, [])
  | none => (draw, [.write .installId draw])

/-- The pruned side files have the recorded sizes. -/
def sideFilesMatch (record : ChainMeta) : Bool :=
  record.validatedHorizonBytes = dir.sizeOf .horizon && dir.sizeOf .horizon > 0 &&
    record.validatedHeadersBytes = dir.sizeOf .headers && dir.sizeOf .headers > 0

/-- Are the files byte for byte what this node validated last?  Asking for the id may
create it. -/
def isOwnFileTrusted (draw : Bytes) : Bool × Datadir :=
  match dir.readMeta S with
  | none => (false, dir)
  | some record =>
      if record.validatedTip = [] then (false, dir)
      else if record.validatedBy = [] then (false, dir)
      else
        let (id, effects) := dir.installId draw
        let left := dir.after effects
        if record.validatedBy ≠ id then (false, left)
        else
          let bytes := left.sizeOf left.blocksPath
          if record.validatedBytes ≠ bytes ∨ bytes = 0 then (false, left)
          else if ¬record.pruned ∧ record.firstHeight = 0 then (true, left)
          else (left.sideFilesMatch record, left)

/-- A `recover-stalled-fork` was interrupted here. -/
def interruptedRecovery : Bool :=
  (dir .recoveryJournal).isSome

end Datadir

/-! ## The pruned side files -/

variable {P : Primitives}

def horizonToFile (ledger : LedgerState P) : HorizonFile where
  height := ledger.height
  minted := ledger.supply.totalMintedDarks
  burned := ledger.supply.totalBurnedDarks
  txCount := ledger.txCount
  coinbaseMaturity := ledger.coinbaseMaturity
  kernelSum := ledger.kernels.sum.toHex
  kernelCount := ledger.kernels.count
  utxos := ledger.utxos.entries.toList.map fun (commit, entry) =>
    ⟨commit.toHex, entry.outputPk.toHex, entry.height, entry.isCoinbase⟩

/-- Insert the entries of a horizon file one after another. -/
def loadHorizonUtxos : UtxoSet P → List HorizonUtxo → Option (UtxoSet P)
  | utxos, [] => some utxos
  | utxos, utxo :: rest => do
      let commit ← decode32 utxo.commit
      let outputPk ← decode32 utxo.outputPk
      loadHorizonUtxos (utxos.insert commit ⟨outputPk, utxo.height, utxo.isCoinbase⟩) rest

/-- The ledger that a horizon file describes.  The file does not name its network. -/
def ledgerOfHorizon (file : HorizonFile) : Option (LedgerState P) := do
  let utxos ← loadHorizonUtxos UtxoSet.empty file.utxos
  let sum ← decode32 file.kernelSum
  some {
    height := file.height
    utxos := utxos
    kernels := ⟨sum, file.kernelCount⟩
    supply := ⟨file.minted, file.burned⟩
    txCount := file.txCount
    coinbaseMaturity := file.coinbaseMaturity
    bindingHeight := NetworkId.mainnet.bindingForkHeight }

variable (P) in
def loadHorizonFile (S : Serde) (content : Option Bytes) : Option (LedgerState P) :=
  (content.bind S.horizonOfJson).bind ledgerOfHorizon

def loadJsonlHeaders (S : Serde) (content : Option Bytes) : Option (List CompactHeader) :=
  content.bind (Records.readLines Utf8.isBlank S.headerOfJson)

/-! ## Saving -/

inductive SaveError where
  | recordTooLarge
  | missingHorizon
  deriving DecidableEq

def Chain.isPruned (chain : Chain P) : Bool :=
  chain.firstHeight > 0

/-- What a save does to the directory, and whether it got to its end. -/
structure SavePlan where
  effects : List (Effect FileName)
  verdict : Except SaveError Unit

namespace SavePlan

/-- Do more unless the plan has failed. -/
def andThen (plan : SavePlan) (next : SavePlan) : SavePlan :=
  match plan.verdict with
  | .ok () => ⟨plan.effects ++ next.effects, next.verdict⟩
  | .error error => ⟨plan.effects, .error error⟩

end SavePlan

namespace Datadir

variable (S : Serde) (draw : Bytes) (dir : Datadir)

/-- The record of a chain next to the files that the directory holds. -/
def metaOf (id : Bytes) (chain : Chain P) : ChainMeta where
  network := chain.network
  genesisHash := (genesisHash P chain.network).toHex
  blockCount := chain.blockCount
  protocolVersion := protocolVersion
  validatedBy := id
  validatedTip := chain.tipHash.toHex
  validatedBytes := dir.sizeOf dir.blocksPath
  firstHeight := chain.firstHeight
  pruned := chain.isPruned
  horizonWork := Utf8.decimal chain.horizonWork
  validatedHorizonBytes := dir.sizeOf .horizon
  validatedHeadersBytes := dir.sizeOf .headers

def writeMeta (chain : Chain P) : SavePlan :=
  let (id, effects) := dir.installId draw
  ⟨effects ++ replace (.temporary .chainMeta) .chainMeta (S.metaJson (dir.metaOf id chain)), .ok ()⟩

/-- Write the block file anew beside the old one, then replace it. -/
def rewriteBodies (chain : Chain P) : SavePlan :=
  let name := dir.blocksPath
  let (content, done) := S.writeBlocks dir.format chain.blocks
  if done then ⟨replace (.temporary name) name content, .ok ()⟩
  else ⟨[.write (.temporary name) content], .error .recordTooLarge⟩

/-- Append blocks to the block file. -/
def appendBlocks (blocks : List Block) : SavePlan :=
  let (content, done) := S.writeBlocks dir.format blocks
  ⟨[.append dir.blocksPath content], if done then .ok () else .error .recordTooLarge⟩

/-- Run a plan, then publish the metadata of what it made. -/
def thenMeta (chain : Chain P) (plan : SavePlan) : SavePlan :=
  plan.andThen ((dir.after plan.effects).writeMeta S draw chain)

def writeHeaders (chain : Chain P) : SavePlan :=
  ⟨replace (.temporary .headers) .headers
    (chain.headers.flatMap fun header => S.headerJson header ++ [10]), .ok ()⟩

def writeHorizon (chain : Chain P) : SavePlan :=
  match chain.horizon with
  | none => ⟨[], .error .missingHorizon⟩
  | some horizon =>
      ⟨replace (.temporary .horizon) .horizon (S.horizonJson (horizonToFile horizon)), .ok ()⟩

/-- The stored history is a part of the chain's. -/
def ancestorMatches (chain : Chain P) (onDisk : Nat) (storedTip : Option Bytes) : Bool :=
  match chain.hashAt (onDisk - 1), storedTip with
  | some current, some stored => current.toHex = stored
  | _, _ => false

/-- A save of an archive writes the block file anew. -/
def savesAnew (chain : Chain P) : Bool :=
  dir.storedBlockCount S > chain.blockCount || (dir dir.blocksPath).isNone ||
    (dir.storedBlockCount S > 0 &&
      !ancestorMatches chain (dir.storedBlockCount S) (dir.storedTip S))

def saveArchive (chain : Chain P) : SavePlan :=
  if dir.savesAnew S chain then dir.thenMeta S draw chain (dir.rewriteBodies S chain)
  else if dir.storedBlockCount S = chain.blockCount then dir.writeMeta S draw chain
  else
    dir.thenMeta S draw chain
      (dir.appendBlocks S (chain.blocks.drop (dir.storedBlockCount S)))

/-- A save of a pruned chain writes its bodies anew. -/
def savesBodiesAnew (chain : Chain P) : Bool :=
  let record := dir.readMeta S
  let storedFirst := (record.map ChainMeta.firstHeight).getD 0
  let storedCount := (record.map ChainMeta.blockCount).getD 0
  let storedTip := (record.map ChainMeta.validatedTip).getD []
  (dir dir.blocksPath).isNone || storedFirst ≠ chain.firstHeight ||
    storedCount > chain.blockCount ||
    !(storedCount = 0 ||
      (chain.hashAt (storedCount - 1)).any fun hash => hash.toHex = storedTip)

/-- The bodies of a pruned save. -/
def saveBodies (chain : Chain P) : SavePlan :=
  if dir.savesBodiesAnew S chain then dir.rewriteBodies S chain
  else if dir.storedBlockCount S < chain.blockCount then
    dir.appendBlocks S (chain.blocks.drop (dir.storedBlockCount S - chain.firstHeight))
  else ⟨[], .ok ()⟩

def savePruned (chain : Chain P) : SavePlan :=
  dir.thenMeta S draw chain
    (((writeHeaders S chain).andThen (writeHorizon S chain)).andThen
      (dir.saveBodies S chain))

/-- Persist a chain.  Appends only what is new unless the chain shrank or diverged. -/
def save (chain : Chain P) : SavePlan :=
  if chain.isPruned then dir.savePruned S draw chain else dir.saveArchive S draw chain

end Datadir

/-! ## Loading -/

inductive LoadError where
  | interruptedRecovery
  | legacyChain
  | otherNetwork (held : NetworkId)
  | prunedUntrusted
  | corruptHorizon
  | corruptHeaders
  | headersShort (found firstHeight : Nat)
  | corruptBlocks
  | revalidation (source : ConsensusError)
  | recordedTip
  | utxoRoot
  | kernelSum
  | supply
  | blockCount (built recorded : Nat)
  deriving DecidableEq

/-- The clock and the random generator during one load. -/
structure LoadEnv where
  recoverNow : UInt64
  now : UInt64
  draw : Bytes

namespace Datadir

variable (S : Serde) (dir : Datadir)

variable (P) in
/-- The blocks are the locally validated chain that the record names. -/
def prefixMatches (record : ChainMeta) (nowUnix : UInt64) (blocks : List Block) : Bool :=
  match Chain.applyAll nowUnix (Chain.newFair P record.network) blocks with
  | .error _ => false
  | .ok verified =>
      verified.verifySupply = .ok () && verified.blockCount = record.blockCount &&
        verified.tipHash.toHex = record.validatedTip &&
        (genesisHash P verified.network).toHex = record.genesisHash

variable (P) in
/-- Roll back an archive append whose metadata commit did not reach the disk. -/
def recoverUncommittedArchiveTail (env : LoadEnv) (network : NetworkId) : Datadir :=
  match dir.readMeta S with
  | none => dir
  | some record =>
      if record.network ≠ network ∨ (genesisHash P network).toHex ≠ record.genesisHash then dir
      else if record.pruned ∨ record.firstHeight ≠ 0 ∨ record.validatedBytes = 0 ∨
          record.validatedTip = [] ∨ record.validatedBy = [] then dir
      else
        let (id, effects) := dir.installId env.draw
        let left := dir.after effects
        if record.validatedBy ≠ id then left
        else
          match left left.blocksPath with
          | none => left
          | some content =>
              if content.length ≤ record.validatedBytes then left
              else
                match S.readBlocks left.format (content.take record.validatedBytes) with
                | none => left
                | some blocks =>
                    if prefixMatches P record env.recoverNow blocks then
                      put left left.blocksPath (content.take record.validatedBytes)
                    else left

variable (P) in
/-- The chain that a pruned load starts from. -/
def prunedStart (network : NetworkId) (record : ChainMeta) : Except LoadError (Chain P) := do
  let work := (Utf8.parseDecimal (2 ^ 128) record.horizonWork).getD 0
  let horizon ← Guard.need (loadHorizonFile P S (dir .horizon)) .corruptHorizon
  let horizon := horizon.withBindingHeight network.bindingForkHeight
  let headers ← Guard.need (loadJsonlHeaders S (dir .headers)) .corruptHeaders
  let headers := headers.filter fun header => header.height.toNat < record.firstHeight
  Guard.refuse (headers.length ≠ record.firstHeight)
    (.headersShort headers.length record.firstHeight)
  .ok { Chain.newFair P network with
    firstHeight := record.firstHeight
    horizonWork := work
    ledger := horizon
    horizon := some horizon
    totalWork := work
    headers := headers }

/-- Apply the stored blocks, as our own file or in full. -/
def replayStored (trusted : Bool) (nowUnix : UInt64) :
    Chain P → List Block → Except ConsensusError (Chain P)
  | chain, [] => .ok chain
  | chain, block :: rest => do
      let next ← Guard.toExcept
        (if trusted then chain.applyBlockFromOwnDisk block else chain.applyBlock block nowUnix)
      replayStored trusted nowUnix next rest

/-- The validation record must describe the chain that was rebuilt. -/
def checkRecord (record : Option ChainMeta) (chain : Chain P) : Except LoadError Unit := do
  Guard.refuse (record.any fun record => record.validatedTip ≠ chain.tipHash.toHex) .recordedTip
  Guard.refuse (chain.blocks.getLast?.any fun tip =>
    chain.ledger.utxoRoot ≠ tip.header.utxoRoot) .utxoRoot
  Guard.refuse (chain.blocks.getLast?.any fun tip =>
    chain.ledger.kernelSum ≠ tip.header.kernelSum) .kernelSum

/-- The record is one of a pruned chain. -/
def recordsPruned (record : Option ChainMeta) : Bool :=
  record.any fun record => record.pruned || record.firstHeight > 0

variable (P) in
/-- The chain on which the stored blocks are replayed. -/
def startOf (network : NetworkId) : Option ChainMeta → Except LoadError (Chain P)
  | some record =>
      if recordsPruned (some record) then dir.prunedStart P S network record
      else .ok (Chain.newFair P network)
  | none => .ok (Chain.newFair P network)

variable (P) in
/-- The chain that the files hold, after the repair. -/
def loadFiles (env : LoadEnv) (network : NetworkId) (trusted : Bool) :
    Except LoadError (Chain P) := do
  let record := dir.readMeta S
  let pruned := recordsPruned record
  let expected := (record.map ChainMeta.blockCount).getD 0
  Guard.refuse (pruned ∧ ¬trusted) .prunedUntrusted
  let start ← dir.startOf P S network record
  let storedBlocks ← Guard.need (S.readBlocks dir.format ((dir dir.blocksPath).getD []))
    .corruptBlocks
  let chain ← (replayStored trusted env.now start storedBlocks).mapError .revalidation
  Guard.onlyIf trusted (checkRecord record chain)
  chain.verifySupply.mapError fun _ => .supply
  Guard.refuse (pruned ∧ expected > 0 ∧ chain.blockCount ≠ expected)
    (.blockCount chain.blockCount expected)
  .ok chain

variable (P) in
/-- Load the chain of a network, replaying and revalidating every stored block. -/
def loadOrNew (env : LoadEnv) (network : NetworkId) : Except LoadError (Chain P) × Datadir :=
  if dir.interruptedRecovery then (.error .interruptedRecovery, dir)
  else if (dir .legacyChain).isSome ∧ (dir dir.blocksPath).isNone then (.error .legacyChain, dir)
  else if (dir dir.blocksPath).isNone then (.ok (Chain.newFair P network), dir)
  else
    match (dir.readMeta S).filter fun record => record.network ≠ network with
    | some record => (.error (.otherNetwork record.network), dir)
    | none =>
        let repaired := dir.recoverUncommittedArchiveTail P S env network
        let (trusted, left) := repaired.isOwnFileTrusted S env.draw
        (left.loadFiles P S env network trusted, left)

end Datadir

end Nightfall
