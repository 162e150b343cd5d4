import Nightfall.Sample
import Nightfall.Wallet.Builder
import Nightfall.Wallet.Light

/-!
# A concrete wallet

A cipher that leaves the plaintext readable, a wallet, and outputs that the wallet owns
or does not own, on the concrete instance of the primitives.
-/

namespace Nightfall

namespace Sample

/-- The plaintext, followed by a tag of 16 bytes that nobody checks. -/
def sealing : Sealing where
  decrypt _ _ payload := some (payload.take payloadLen)
  utf8Lossy bytes := bytes

def keys : WalletKeys primitives :=
  WalletKeys.fromSeed primitives 0

/-- A fresh wallet that begins at genesis. -/
def wallet : Wallet primitives :=
  Wallet.inMemory .devnet keys 0

/-- The output with a payload of the length that wallets seal. -/
def sealedOutput (output : Output) : Output :=
  { output with payload := List.replicate 120 0 }

def sealedBody0 : BlockBody :=
  { body0 with outputs := body0.outputs.map sealedOutput }

def sealedChain1 : Chain primitives := grow (Chain.newFair primitives .devnet) sealedBody0

def sealedBlock0 : Block := mine (Chain.newFair primitives .devnet) sealedBody0

/-- The shared secret of every sample output: its ephemeral key is the zero point. -/
def secret : Bytes32 :=
  sharedSecret primitives (0 : ZMod order)

/-- An output of this value and blinding factor that the wallet finds. -/
def ownedOutput (features : OutputFeature) (value : UInt64) (blinding : Nat) : Output where
  features := features
  commit := commitNew primitives value (blinding : ZMod order)
  rangeProof := []
  ephemeralPk := 0
  outputPk := compress
    (keys.spendSk + deriveKeyOffset primitives secret : ZMod order)
  viewTag := deriveViewTag primitives secret
  payload := u64LeBytes value ++ Bytes32.toBytes (compress (blinding : ZMod order)) ++
    List.replicate 80 0
  senderSig := ⟨0, 0⟩

/-- The same output for somebody else. -/
def foreignOutput (features : OutputFeature) (value : UInt64) (blinding : Nat) : Output :=
  { ownedOutput features value blinding with outputPk := 0 }

/-- A block on top of another that consumes and creates these commitments. -/
def blockOn (prevHash : Hash256) (height : UInt64) (inputs : List Commitment)
    (outputs : List Output) : Block :=
  let body : BlockBody :=
    { inputs := inputs.map inputOf
      outputs := outputs
      kernels := []
      stealthOffset := none
      kernelOffset := none }
  { header := {
      version := protocolVersion
      height := height
      prevHash := prevHash
      utxoRoot := 0
      kernelSum := 0
      bodyRoot := body.hash primitives
      timestampUnix := 1000 + 15 * height
      difficulty := 1
      nonce := 0
      rewardDarks := 0 }
    body := body }

/-- The block on top of `parent`. -/
def blockAfter (parent : Block) (inputs : List Commitment) (outputs : List Output) : Block :=
  blockOn (parent.hash primitives) (parent.height + 1) inputs outputs

/-- Proofs and signatures that the sample verifiers accept. -/
def crypto : TransferCrypto primitives where
  sign _ _ _ := ⟨0, 0⟩
  rangeProve value blind _ := some ([], commitNew primitives value blind)
  encrypt _ _ plain := some (plain ++ List.replicate 16 0)

def draws : TransferDraws primitives where
  ephemeral index := (index + 2 : Nat)
  entropy index := BitVec.ofNat 256 index
  kernelOffset := (3 : ZMod order)
  stealthOffset := (4 : ZMod order)

/-- The first block with its subsidy paid to the wallet. -/
def ownedBody0 : BlockBody :=
  { bodyAt 0 [] [] [] with outputs := [ownedOutput .coinbase 600000000 1] }

def ownedChain1 : Chain primitives := grow (Chain.newFair primitives .devnet) ownedBody0

def ownedBlock0 : Block := mine (Chain.newFair primitives .devnet) ownedBody0

/-- Three blocks: the wallet receives a coin of value zero, pays with it, and receives
another one from somebody else. -/
def paidBody0 : BlockBody :=
  bodyAt 0 [] [ownedOutput .plain 0 50] [kernelOf .plain 0 0 50]

def paidBody1 : BlockBody :=
  bodyAt 1 [inputOf zeroValued] [foreignOutput .plain 0 60] [kernelOf .plain 0 0 10]

def paidBody2 : BlockBody :=
  bodyAt 2 [inputOf (commitTo 0 60)] [ownedOutput .plain 0 70] [kernelOf .plain 0 0 10]

def paidChain1 : Chain primitives := grow (Chain.newFair primitives .devnet) paidBody0
def paidChain2 : Chain primitives := grow paidChain1 paidBody1
def paidChain3 : Chain primitives := grow paidChain2 paidBody2

def paidBlock0 : Block := mine (Chain.newFair primitives .devnet) paidBody0
def paidBlock1 : Block := mine paidChain1 paidBody1
def paidBlock2 : Block := mine paidChain2 paidBody2

/-- On the first of them, an empty block and one in which the wallet pays itself. -/
def changeBody1 : BlockBody := bodyAt 1 [] [] []

def changeBody2 : BlockBody :=
  bodyAt 2 [inputOf zeroValued] [ownedOutput .plain 0 80] [kernelOf .plain 0 0 30]

def changeChain2 : Chain primitives := grow paidChain1 changeBody1
def changeChain3 : Chain primitives := grow changeChain2 changeBody2

def changeBlock1 : Block := mine paidChain1 changeBody1
def changeBlock2 : Block := mine changeChain2 changeBody2

end Sample

end Nightfall
