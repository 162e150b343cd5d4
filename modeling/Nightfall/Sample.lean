import Nightfall.Consensus.Chain

/-!
# A concrete instance

The integers modulo a Mersenne prime stand for the curve, a polynomial for Blake3, and
the verifiers accept.  On this instance the definitions can be evaluated, block by
block.
-/

namespace Nightfall

namespace Sample

abbrev order : Nat := 2 ^ 127 - 1

theorem order_prime : Nat.Prime order :=
  lucas_lehmer_sufficiency 127 (by norm_num) (by norm_num)

instance : NeZero order := ⟨by norm_num [order]⟩

def digest (bytes : Bytes) : Hash256 :=
  BitVec.ofNat 256
    (bytes.foldl (fun total byte => (total * 257 + byte.toNat + 1) % (2 ^ 256 - 189)) 1)

def compress (point : ZMod order) : Bytes32 :=
  BitVec.ofNat 256 point.val

def decompress (bytes : Bytes32) : Option (ZMod order) :=
  if bytes.toNat < order then some (bytes.toNat : ZMod order) else none

theorem decompress_compress (point : ZMod order) :
    decompress (compress point) = some point := by
  have small : point.val < order := ZMod.val_lt point
  have fits : (compress point).toNat = point.val := by
    simp only [compress, BitVec.toNat_ofNat]
    exact Nat.mod_eq_of_lt (small.trans (by norm_num [order]))
  rw [decompress, fits, if_pos small, ZMod.natCast_zmod_val]

def primitives : Primitives where
  Point := ZMod order
  order := order
  orderPrime := ⟨order_prime⟩
  order_large := by norm_num [order]
  generatorG := 1
  generatorH := 7
  generatorG_ne_zero := by
    have := Fact.mk order_prime
    exact one_ne_zero
  compress := compress
  decompress := decompress
  decompress_compress := decompress_compress
  scalarToBytes := compress
  scalarFromBytes := decompress
  scalarFromBytes_toBytes := decompress_compress
  scalarFromWide bytes := (digest bytes).toNat
  blake3 := digest
  argon2id _ _ _ := 0
  schnorrVerify _ _ _ _ := true
  rangeVerify _ _ _ := true
  genesisJson
    | .mainnet => [0]
    | .testnet => [1]
    | .devnet => [2]
  assumeValid := true

/-- The commitment to `value` with the blinding factor `blinding`. -/
def commitTo (value : Nat) (blinding : Int) : Commitment :=
  compress (value + 7 * blinding : Int)

def outputOf (features : OutputFeature) (commit : Commitment) : Output where
  features := features
  commit := commit
  rangeProof := []
  ephemeralPk := 0
  outputPk := 0
  viewTag := 0
  payload := []
  senderSig := ⟨0, 0⟩

def inputOf (commit : Commitment) : Input :=
  ⟨commit, ⟨0, 0⟩, none, none⟩

/-- A kernel without a fee whose excess is `blinding` times the second generator. -/
def kernelOf (feature : KernelFeature) (rewardDarks lockHeight : UInt64) (blinding : Int) :
    TxKernel where
  feature := feature
  feeDarks := 0
  rewardDarks := rewardDarks
  lockHeight := lockHeight
  excess := commitTo 0 blinding
  excessSig := ⟨0, 0⟩
  stealthExcess := none
  stealthSig := none

/-- A body that claims the first subsidy, with plain inputs, outputs and kernels
beside the coinbase. -/
def bodyAt (height : UInt64) (inputs : List Input) (outputs : List Output)
    (kernels : List TxKernel) : BlockBody where
  inputs := inputs
  outputs := outputOf .coinbase (commitTo 600000000 (height.toNat + 1)) :: outputs
  kernels := kernelOf .coinbase 600000000 height (height.toNat + 1) :: kernels
  stealthOffset := none
  kernelOffset := none

/-- The time at which blocks are checked. -/
def now : UInt64 := 100000

/-- A block with this body on top of the chain. -/
def mine (chain : Chain primitives) (body : BlockBody) : Block :=
  let height := chain.nextHeight
  let subsidy := subsidyAt chain.ledger height
  let body := body.canonicalise primitives
  let ledger := (chain.ledger.applyBlockStateOnly body height subsidy).2
  { header := {
      version := protocolVersion
      height := height
      prevHash := chain.tipHash
      utxoRoot := ledger.utxoRoot
      kernelSum := ledger.kernelSum
      bodyRoot := body.hash primitives
      timestampUnix := 1000 + 15 * height
      difficulty := chain.nextDifficulty
      nonce := 0
      rewardDarks := LedgerState.coinbaseDue body subsidy }
    body := body }

/-- The chain after mining a block with this body. -/
def grow (chain : Chain primitives) (body : BlockBody) : Chain primitives :=
  (chain.applyBlock (mine chain body) now).2

/-- The chains after one to three blocks.  The first block creates an output of value
zero, which the third one spends. -/
def zeroValued : Commitment := commitTo 0 50

def body0 : BlockBody :=
  bodyAt 0 [] [outputOf .plain zeroValued] [kernelOf .plain 0 0 50]

def body1 : BlockBody :=
  bodyAt 1 [] [] []

def body2 : BlockBody :=
  bodyAt 2 [inputOf zeroValued] [] [kernelOf .plain 0 0 (-50)]

def body3 : BlockBody :=
  bodyAt 3 [] [] []

def chain1 : Chain primitives := grow (Chain.newFair primitives .devnet) body0
def chain2 : Chain primitives := grow chain1 body1
def chain3 : Chain primitives := grow chain2 body2

def block0 : Block := mine (Chain.newFair primitives .devnet) body0
def block1 : Block := mine chain1 body1
def block2 : Block := mine chain2 body2
def block3 : Block := mine chain3 body3

/-- The second block with a body that creates the output of the first one again. -/
def altered1 : Block :=
  { block1 with
    body := { block1.body with
      outputs := block1.body.outputs ++ [outputOf .plain zeroValued] } }

end Sample

end Nightfall
