import Nightfall.Ledger.State

/-!
# Blocks, emission and difficulty

Block headers with their two hashes, the emission schedule, the difficulty retarget
and the median-time rule.
-/

namespace Nightfall

variable (P : Primitives)

/-- Reorgs that abandon more of our blocks than this are refused. -/
def maxReorgDepth : Nat := 500

def maxTxsPerBlock : Nat := 512

/-! ## Emission -/

structure EmissionSchedule where
  initialRewardDarks : UInt64
  halvingInterval : UInt64
  maxSupplyDarks : UInt64

namespace EmissionSchedule

def lockedMainnet : EmissionSchedule where
  initialRewardDarks := initialBlockRewardNight * darksPerNight
  halvingInterval := halvingIntervalBlocks
  maxSupplyDarks := Nightfall.maxSupplyDarks

def theoreticalRewardAt (schedule : EmissionSchedule) (height : UInt64) : UInt64 :=
  if schedule.initialRewardDarks = 0 ∨ schedule.halvingInterval = 0 then 0
  else
    let halvings := height / schedule.halvingInterval
    if halvings ≥ 64 then 0 else schedule.initialRewardDarks >>> halvings

/-- Reward payable at a height, clamped to what the cap leaves. -/
def rewardAt (schedule : EmissionSchedule) (height totalMintedDarks : UInt64) : UInt64 :=
  if totalMintedDarks ≥ schedule.maxSupplyDarks then 0
  else min (schedule.theoreticalRewardAt height) (schedule.maxSupplyDarks - totalMintedDarks)

end EmissionSchedule

/-- The subsidy of a block at `height` on top of `ledger`. -/
def subsidyAt {P : Primitives} (ledger : LedgerState P) (height : UInt64) : UInt64 :=
  EmissionSchedule.lockedMainnet.rewardAt height ledger.supply.totalMintedDarks

/-! ## Blocks -/

structure BlockHeader where
  version : UInt32
  height : UInt64
  prevHash : Hash256
  /-- Merkle root of the unspent set after this block. -/
  utxoRoot : Hash256
  /-- Running sum of every kernel excess, after this block. -/
  kernelSum : Commitment
  /-- Hash over the aggregated block body. -/
  bodyRoot : Hash256
  timestampUnix : UInt64
  difficulty : UInt64
  nonce : UInt64
  rewardDarks : UInt64
  deriving DecidableEq

namespace BlockHeader

/-- The fields covered by the proof of work, without the nonce. -/
def parts (header : BlockHeader) : List Bytes :=
  [u32LeBytes header.version, u64LeBytes header.height, header.prevHash.toBytes,
    header.utxoRoot.toBytes, header.kernelSum.toBytes, header.bodyRoot.toBytes,
    u64LeBytes header.timestampUnix, u64LeBytes header.difficulty,
    u64LeBytes header.rewardDarks]

/-- Bytes hashed for proof of work, without the nonce. -/
def powPreimage (header : BlockHeader) : Bytes :=
  (hashMulti P Domain.block header.parts).toBytes

def powHash (header : BlockHeader) (params : PowParams) : Hash256 :=
  nighthash P (header.powPreimage P) header.nonce params

/-- Canonical block identity, which covers the nonce. -/
def hash (header : BlockHeader) : Hash256 :=
  hashMulti P Domain.block [header.powPreimage P, u64LeBytes header.nonce]

/-- The two byte strings that Blake3 reads to hash a header. -/
def preimages (header : BlockHeader) : List Bytes :=
  [hashPreimage Domain.block header.parts,
    hashPreimage Domain.block [header.powPreimage P, u64LeBytes header.nonce]]

/-- The parts and the nonce determine the header. -/
theorem ext_of_parts {left right : BlockHeader} (parts : left.parts = right.parts)
    (nonce : left.nonce = right.nonce) : left = right := by
  obtain ⟨version, height, prevHash, utxoRoot, kernelSum, bodyRoot, timestamp, difficulty,
    _, reward⟩ := left
  simp only [BlockHeader.parts, List.cons.injEq, u32LeBytes_injective.eq_iff,
    u64LeBytes_injective.eq_iff, Bytes32.toBytes_injective.eq_iff, and_true] at parts
  obtain ⟨rfl, rfl, rfl, rfl, rfl, rfl, rfl, rfl, rfl⟩ := parts
  cases nonce
  rfl

/-- Header hashes do not collide where Blake3 does not. -/
theorem hash_injOn {known : Set BlockHeader}
    (collisionFree : Set.InjOn P.blake3 {bytes | ∃ header ∈ known, bytes ∈ header.preimages P}) :
    Set.InjOn (hash P) known := by
  intro left leftKnown right rightKnown same
  have outer : hashPreimage Domain.block [left.powPreimage P, u64LeBytes left.nonce] =
      hashPreimage Domain.block [right.powPreimage P, u64LeBytes right.nonce] :=
    collisionFree ⟨left, leftKnown, by simp [preimages]⟩ ⟨right, rightKnown, by simp [preimages]⟩
      same
  have fields := hashPreimage_injective (by simp [powPreimage]) outer
  simp only [List.cons.injEq, and_true, powPreimage, Bytes32.toBytes_injective.eq_iff,
    u64LeBytes_injective.eq_iff] at fields
  have inner : hashPreimage Domain.block left.parts = hashPreimage Domain.block right.parts :=
    collisionFree ⟨left, leftKnown, by simp [preimages]⟩ ⟨right, rightKnown, by simp [preimages]⟩
      fields.1
  exact ext_of_parts (hashPreimage_injective (by simp [parts]) inner) fields.2

end BlockHeader

structure Block where
  header : BlockHeader
  body : BlockBody
  deriving DecidableEq

namespace Block

def hash (block : Block) : Hash256 :=
  block.header.hash P

def work (block : Block) : Nat :=
  blockWork block.header.difficulty

def powIsValid (block : Block) (params : PowParams) : Bool :=
  meetsDifficulty (block.header.powHash P params) block.header.difficulty

def stripBinding (block : Block) : Block :=
  { block with body := block.body.stripBinding }

@[simp] theorem stripBinding_header (block : Block) :
    block.stripBinding.header = block.header := rfl

end Block

/-- Header facts kept after a body is pruned. -/
structure CompactHeader where
  height : UInt64
  hash : Hash256
  prevHash : Hash256
  timestampUnix : UInt64
  difficulty : UInt64
  deriving DecidableEq

namespace CompactHeader

def fromBlock (block : Block) : CompactHeader where
  height := block.header.height
  hash := block.hash P
  prevHash := block.header.prevHash
  timestampUnix := block.header.timestampUnix
  difficulty := block.header.difficulty

def work (header : CompactHeader) : Nat :=
  blockWork header.difficulty

@[simp] theorem work_fromBlock (block : Block) : (fromBlock P block).work = block.work := rfl

end CompactHeader

/-! ## Difficulty and median time -/

/-- Difficulty of the block that follows `history`, a list of timestamps and
difficulties in ascending height order. -/
def lwmaDifficulty (history : List (UInt64 × UInt64)) (initial minDifficulty : UInt64) :
    UInt64 :=
  let n := difficultyWindow
  if history.length < n + 1 then max initial minDifficulty
  else
    let window := history.drop (history.length - (n + 1))
    let target : Int := targetBlockTimeSecs
    let minSolvetime := lwmaMinSolvetimeFactor * target
    let maxSolvetime := lwmaMaxSolvetimeFactor * target
    let solvetime (previous current : UInt64) : Int :=
      max minSolvetime (min maxSolvetime
        (Machine.wrapI64 (Machine.asI64 current - Machine.asI64 previous)))
    let weighted := (((window.zip window.tail).zipIdx 1).map fun (pair, index) =>
      solvetime pair.1.1 pair.2.1 * index).sum
    let difficultySum := (window.tail.map fun entry => entry.2.toNat).sum
    -- The weighted solve time of a perfectly paced chain.
    let k : Int := (n : Int) * (n + 1) * target / 2
    let weighted := max weighted (k / 10)
    let average := difficultySum / n
    let next := Machine.saturatingMul128 average k.toNat / (max weighted 1).toNat
    let upper := Machine.saturatingMul128 average 2
    let lower := max (average / 2) 1
    let clamped := max lower (min upper next)
    max (UInt64.ofNat (min clamped (2 ^ 64 - 1))) minDifficulty

/-- Median of the last `mtpWindow` timestamps. -/
def medianTimePast (timestamps : List UInt64) : UInt64 :=
  if timestamps = [] then 0
  else
    let take := min mtpWindow timestamps.length
    let window := (timestamps.drop (timestamps.length - take)).insertionSort (· ≤ ·)
    window.getD (window.length / 2) 0

end Nightfall
