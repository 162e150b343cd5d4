import Nightfall.Ledger.Tx
import Nightfall.Wallet.Stealth

/-!
# Building a transfer

`createOutput` seals an output to an address and `buildTransferWith` spends coins into
payments and change.  The proofs, the cipher, the signatures and the random draws come in
as parameters.
-/

namespace Nightfall

namespace Domain

def stealthBlind : Bytes := ascii "nightfall:stealth:blind:v2"
def inputSecret : Bytes := ascii "nightfall:input:secret:v1"

end Domain

def txVersion : UInt32 := 2

/-- Code that needs the operating system's randomness or an outside library. -/
structure TransferCrypto (P : Primitives) where
  /-- `sig::sign(secret, generator, message)`. -/
  sign : P.Scalar → P.Point → Bytes → SchnorrSig
  /-- `rangeproof::prove(value, blind, context)`. -/
  rangeProve : UInt64 → P.Scalar → Bytes → Option (Bytes × Commitment)
  /-- `XChaCha20Poly1305` encryption under a key and a nonce. -/
  encrypt : Bytes32 → Bytes → Bytes → Option Bytes

/-- What one transfer draws at random. -/
structure TransferDraws (P : Primitives) where
  /-- The ephemeral secret of each output. -/
  ephemeral : Nat → P.Scalar
  /-- The entropy of each input secret. -/
  entropy : Nat → Bytes32
  kernelOffset : P.Scalar
  stealthOffset : P.Scalar

/-- Public payment address. -/
structure Address where
  scanPk : Bytes32
  spendPk : Bytes32
  deriving DecidableEq

variable {P : Primitives}

def WalletKeys.address (keys : WalletKeys P) : Address where
  scanPk := P.compress (keys.scanSk • P.generatorG)
  spendPk := P.compress (keys.spendSk • P.generatorG)

/-- What the sender must keep in order to build the kernel. -/
structure SenderSecrets (P : Primitives) where
  blind : P.Scalar
  value : UInt64
  ephemeral : P.Scalar

/-- An owned output with everything needed to spend it. -/
structure Spendable (P : Primitives) where
  commit : Commitment
  value : UInt64
  blind : P.Scalar
  spendSecret : P.Scalar

/-- Where a slice of value is going. -/
structure Payment where
  recipient : Address
  amount : UInt64
  memo : Text

inductive BuildError where
  | noInputs
  | insufficientFunds (available needed : UInt64)
  | amountOverflow
  | outputFailed
  | tx (source : TxError)
  deriving DecidableEq

/-! ## Outputs -/

/-- Value, blinding factor and padded memo. -/
def sealedPlain (value : UInt64) (blind : P.Scalar) (memo : Text) : Bytes :=
  u64LeBytes value ++ (P.scalarToBytes blind).toBytes ++
    (memo.take memoLen ++ List.replicate (memoLen - memo.length) 0)

/-- Create an output paying `value` to an address. -/
def createOutput (C : TransferCrypto P) (r : P.Scalar) (recipient : Address) (value : UInt64)
    (memo : Text) (ctx : Bytes) (features : OutputFeature) :
    Option (Output × SenderSecrets P) := do
  let scanPoint ← P.decompress recipient.scanPk
  let spendPoint ← P.decompress recipient.spendPk
  let secret := sharedSecret P (r • scanPoint)
  let blind := blindFromBytes P Domain.stealthBlind secret.toBytes
  let offset := deriveKeyOffset P secret
  let (rangeProof, commit) ← C.rangeProve value blind ctx
  let (key, nonce) := deriveAead P secret
  let payload ← C.encrypt key nonce (sealedPlain value blind memo)
  let unsigned : Output :=
    { features := features
      commit := commit
      rangeProof := rangeProof
      ephemeralPk := P.compress (r • P.generatorG)
      outputPk := P.compress (spendPoint + offset • P.generatorG)
      viewTag := deriveViewTag P secret
      payload := payload
      senderSig := ⟨0, 0⟩ }
  some
    ({ unsigned with senderSig := C.sign r P.generatorG (unsigned.sigMessage P) },
      ⟨blind, value, r⟩)

/-! ## Kernels and inputs -/

def buildKernel (C : TransferCrypto P) (feature : KernelFeature)
    (feeDarks rewardDarks lockHeight : UInt64) (excessSecret : P.Scalar) : TxKernel :=
  let unsigned : TxKernel :=
    { feature := feature
      feeDarks := feeDarks
      rewardDarks := rewardDarks
      lockHeight := lockHeight
      excess := Commitment.fromPoint P (excessSecret • P.generatorH)
      excessSig := ⟨0, 0⟩
      stealthExcess := none
      stealthSig := none }
  { unsigned with
    excessSig := C.sign excessSecret P.generatorH (unsigned.signingMessage P) }

/-- Attach a stealth excess for the secret `x`. -/
def attachStealth (C : TransferCrypto P) (kernel : TxKernel) (x : P.Scalar) : TxKernel :=
  let point := P.compress (x • P.generatorG)
  { kernel with
    stealthExcess := some point
    stealthSig := some (C.sign x P.generatorG
      (kernelStealthMessage P (kernel.signingMessage P) point)) }

/-- The fresh input secret for spending a coin. -/
def deriveInputSecret (entropy : Bytes32) (ko : P.Scalar) (commit : Commitment) : P.Scalar :=
  let part (tail : Bytes) := hashMulti P Domain.inputSecret
    [(P.scalarToBytes ko).toBytes, commit.toBytes, entropy.toBytes, tail]
  P.scalarFromWide ((part (ascii "0")).toBytes ++ (part (ascii "1")).toBytes)

/-- The signed input that spends a coin with the input secret `ki`. -/
def signInput (C : TransferCrypto P) (ki : P.Scalar) (coin : Spendable P) : Input :=
  let outputPk := P.compress (coin.spendSecret • P.generatorG)
  let inputKey := P.compress (ki • P.generatorG)
  let combined := ki + inputKeyCoefficient P inputKey outputPk * coin.spendSecret
  { commit := coin.commit
    sig := C.sign coin.spendSecret P.generatorG (Transaction.inputMessage P coin.commit)
    inputKey := some inputKey
    keySig := some (C.sign combined P.generatorG (inputBindMessage P coin.commit inputKey)) }

/-! ## The coinbase -/

/-- Build the block subsidy transaction. -/
def buildCoinbase (C : TransferCrypto P) (r s : P.Scalar) (miner : Address)
    (rewardDarks height : UInt64) (ctx : Bytes) : Except TxError Transaction := do
  let (output, secrets) ← Guard.need (createOutput C r miner rewardDarks [] ctx .coinbase)
    .malformedCommitment
  let kernel := attachStealth C (buildKernel C .coinbase 0 rewardDarks height secrets.blind)
    (-secrets.ephemeral - s)
  .ok
    { version := txVersion
      inputs := []
      outputs := [output]
      kernels := [kernel]
      stealthOffset := some (P.scalarToBytes s)
      kernelOffset := none }

/-! ## Transfers -/

/-- Create the outputs of a transfer, numbering the draws. -/
def createOutputs (C : TransferCrypto P) (draws : TransferDraws P) (ctx : Bytes) :
    Nat → List Payment → Option (List (Output × SenderSecrets P))
  | _, [] => some []
  | index, payment :: rest => do
      let output ← createOutput C (draws.ephemeral index) payment.recipient payment.amount
        payment.memo ctx .plain
      let others ← createOutputs C draws ctx (index + 1) rest
      some (output :: others)

/-- Build a transfer.  Change is returned to `changeTo`, even when it is zero. -/
def buildTransferWith (C : TransferCrypto P) (draws : TransferDraws P)
    (spendables : List (Spendable P)) (payments : List Payment) (feeDarks : UInt64)
    (changeTo : Address) (lockHeight : UInt64) (ctx : Bytes) (kernelOffset : Bool) :
    Except BuildError Transaction := do
  Guard.refuse (spendables = []) .noInputs
  Guard.refuse (spendables.length > maxInputs) (.tx .tooManyInputs)
  Guard.refuse (payments.length + 1 > maxOutputs) (.tx .tooManyOutputs)
  let inSum := (spendables.map Spendable.value).sum
  let paySum := (payments.map Payment.amount).sum
  let needed ← Guard.need (Machine.checkedAdd paySum feeDarks) .amountOverflow
  Guard.refuse (inSum < needed) (.insufficientFunds inSum needed)
  let outputs ← Guard.need
    (createOutputs C draws ctx 0 (payments ++ [⟨changeTo, inSum - needed, []⟩])) .outputFailed
  let secrets := outputs.map Prod.snd
  let offset := if kernelOffset then draws.kernelOffset else 0
  let excessSecret := (secrets.map SenderSecrets.blind).sum -
    (spendables.map Spendable.blind).sum - offset
  let inputSecrets := spendables.zipIdx.map fun (coin, index) =>
    deriveInputSecret (draws.entropy index) coin.spendSecret coin.commit
  let kernel := attachStealth C (buildKernel C .plain feeDarks 0 lockHeight excessSecret)
    (inputSecrets.sum - (secrets.map SenderSecrets.ephemeral).sum - draws.stealthOffset)
  let tx : Transaction :=
    { version := txVersion
      inputs := (spendables.zip inputSecrets).map fun (coin, ki) => signInput C ki coin
      outputs := outputs.map Prod.fst
      kernels := [kernel]
      stealthOffset := some (P.scalarToBytes draws.stealthOffset)
      kernelOffset := if kernelOffset then some (P.scalarToBytes draws.kernelOffset) else none }
  (tx.checkShape P).mapError .tx
  .ok tx

/-- A built transfer spends exactly the coins it was given. -/
theorem buildTransferWith_inputs {C : TransferCrypto P} {draws : TransferDraws P}
    {spendables : List (Spendable P)} {payments : List Payment} {feeDarks : UInt64}
    {changeTo : Address} {lockHeight : UInt64} {ctx : Bytes} {kernelOffset : Bool}
    {tx : Transaction}
    (built : buildTransferWith C draws spendables payments feeDarks changeTo lockHeight ctx
      kernelOffset = .ok tx) :
    tx.inputs.map Input.commit = spendables.map Spendable.commit := by
  simp only [buildTransferWith, Guard.bind_eq_ok, Except.ok.injEq] at built
  obtain ⟨_, _, _, _, _, _, _, _, _, _, _, _, _, _, rfl⟩ := built
  simp only [List.map_map, Function.comp_def, signInput]
  have firsts := congrArg (List.map Spendable.commit)
    (@List.map_fst_zip _ _ spendables (spendables.zipIdx.map fun entry =>
      deriveInputSecret (draws.entropy entry.2) entry.1.spendSecret entry.1.commit) (by simp))
  rw [List.map_map] at firsts
  exact firsts

end Nightfall
