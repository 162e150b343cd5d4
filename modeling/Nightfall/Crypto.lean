import Nightfall.Library.Guard
import Nightfall.Types

/-!
# Cryptographic objects

Commitments, kernels, outputs and the proof-of-work predicate over an abstract
prime-order group.  The curve, Blake3, Argon2, the Schnorr verifier and the range
proof verifier are fields of `Primitives`; everything that the repository itself
computes from them is defined here.
-/

namespace Nightfall

structure SchnorrSig where
  r : Bytes32
  s : Bytes32
  deriving DecidableEq

/-- Code outside the repository, and the two verifiers, as parameters.

The group has prime order above `2 ^ 64`, so that amounts do not wrap in it. -/
structure Primitives where
  Point : Type
  [pointGroup : AddCommGroup Point]
  [pointDecEq : DecidableEq Point]
  order : Nat
  [orderPrime : Fact order.Prime]
  [scalarAction : Module (ZMod order) Point]
  order_large : 2 ^ 64 < order
  /-- Value generator `G`. -/
  generatorG : Point
  /-- Blinding generator `H`. -/
  generatorH : Point
  generatorG_ne_zero : generatorG ≠ 0
  compress : Point → Bytes32
  decompress : Bytes32 → Option Point
  decompress_compress : ∀ point, decompress (compress point) = some point
  scalarToBytes : ZMod order → Bytes32
  /-- `Scalar::from_canonical_bytes`. -/
  scalarFromBytes : Bytes32 → Option (ZMod order)
  scalarFromBytes_toBytes : ∀ scalar, scalarFromBytes (scalarToBytes scalar) = some scalar
  /-- `Scalar::from_bytes_mod_order_wide`, on 64 bytes. -/
  scalarFromWide : Bytes → ZMod order
  blake3 : Bytes → Hash256
  /-- Argon2id of a password and a salt. -/
  argon2id : Bytes → Bytes → PowParams → Hash256
  /-- `sig::verify(public, generator, message, signature)`. -/
  schnorrVerify : Point → Point → Bytes → SchnorrSig → Bool
  /-- `rangeproofs::verify(proof, commitment, context)`. -/
  rangeVerify : Bytes → Bytes32 → Bytes → Bool
  /-- The JSON text of the fair-launch genesis configuration. -/
  genesisJson : NetworkId → Bytes
  /-- The variable `NIGHTFALL_NO_ASSUME_VALID` is not set. -/
  assumeValid : Bool

attribute [instance] Primitives.pointGroup Primitives.pointDecEq
  Primitives.orderPrime Primitives.scalarAction

/-- Scalars of the group. -/
abbrev Primitives.Scalar (P : Primitives) := ZMod P.order

variable (P : Primitives)

/-! ## Hashing -/

namespace Domain

def genesis : Bytes := ascii "nightfall:genesis:v2"
def block : Bytes := ascii "nightfall:block:v2"
def tx : Bytes := ascii "nightfall:tx:v2"
def txBound : Bytes := ascii "nightfall:tx:bound:v1"
def txbody : Bytes := ascii "nightfall:txbody:v2"
def txbodyBound : Bytes := ascii "nightfall:txbody:bound:v1"
def merkle : Bytes := ascii "nightfall:merkle:v2"
def merkleLeaf : Bytes := ascii "nightfall:merkle:leaf:v2"
def kernel : Bytes := ascii "nightfall:kernel:v2"
def input : Bytes := ascii "nightfall:input:v2"
def inputKeyCoeff : Bytes := ascii "nightfall:input:key:coeff:v1"
def inputBind : Bytes := ascii "nightfall:input:bind:v1"
def kernelStealth : Bytes := ascii "nightfall:kernel:stealth:v1"
def outputSig : Bytes := ascii "nightfall:output:sig:v2"
def nighthashSalt : Bytes := ascii "nightfall:nighthash:salt:v2"

end Domain

/-- The length-prefixed bytes that `hashMulti` feeds to Blake3. -/
def hashPreimage (domain : Bytes) (parts : List Bytes) : Bytes :=
  u64LeBytes (UInt64.ofNat domain.length) ++ domain ++
    u64LeBytes (UInt64.ofNat parts.length) ++
    parts.flatMap fun part => u64LeBytes (UInt64.ofNat part.length) ++ part

/-- Parts of the same lengths can be read off the preimage. -/
theorem hashPreimage_injective {domain : Bytes} {left right : List Bytes}
    (lengths : left.map List.length = right.map List.length)
    (same : hashPreimage domain left = hashPreimage domain right) : left = right := by
  have count : left.length = right.length := by
    simpa using congrArg List.length lengths
  have tails := List.append_inj_right same (by simp)
  clear same count
  induction left generalizing right with
  | nil => simpa [eq_comm] using lengths
  | cons part rest ih =>
      cases right with
      | nil => simp at lengths
      | cons other others =>
          simp only [List.map_cons, List.cons.injEq] at lengths
          simp only [List.flatMap_cons, List.append_assoc] at tails
          have parts := List.append_inj_right tails (by simp)
          obtain ⟨rfl, later⟩ := List.append_inj parts lengths.1
          rw [ih lengths.2 later]

def hashMulti (domain : Bytes) (parts : List Bytes) : Hash256 :=
  P.blake3 (hashPreimage domain parts)

def hashDomain (domain : Bytes) (data : Bytes) : Hash256 :=
  hashMulti P domain [data]

/-- `genesis_commitment` of the network's fair-launch configuration. -/
def genesisHash (network : NetworkId) : Hash256 :=
  hashDomain P Domain.genesis (P.genesisJson network)

/-! ## Commitments -/

/-- A Pedersen commitment in compressed form. -/
abbrev Commitment := Bytes32

namespace Commitment

/-- Decompress.  `none` for an invalid encoding. -/
def point (commit : Commitment) : Option P.Point :=
  P.decompress commit

def fromPoint (point : P.Point) : Commitment :=
  P.compress point

def identity : Commitment :=
  P.compress 0

/-- Sum of a commitment list.  `none` if any element is malformed. -/
def sum : List Commitment → Option P.Point
  | [] => some 0
  | commit :: rest => do
      let head ← point P commit
      let tail ← sum rest
      some (head + tail)

/-- The point of a commitment, with zero for an invalid encoding. -/
def pointOrZero (commit : Commitment) : P.Point :=
  (point P commit).getD 0

/-- A sum exists exactly when every element decodes. -/
theorem sum_eq_some {commits : List Commitment} {total : P.Point} :
    sum P commits = some total ↔
      (∀ commit ∈ commits, (point P commit).isSome) ∧
        total = (commits.map (pointOrZero P)).sum := by
  induction commits generalizing total with
  | nil => simpa [sum] using eq_comm
  | cons commit rest ih =>
      simp only [sum, Option.bind_eq_bind, Option.bind_eq_some_iff, Option.some.injEq,
        List.mem_cons, forall_eq_or_imp, List.map_cons, List.sum_cons, ih]
      cases decoded : point P commit with
      | none => simp
      | some head =>
          constructor
          · rintro ⟨_, found, _, ⟨decodes, rfl⟩, rfl⟩
            obtain rfl := Option.some.inj found
            simpa [pointOrZero, decoded] using decodes
          · rintro ⟨⟨_, decodes⟩, rfl⟩
            exact ⟨head, rfl, _, ⟨decodes, rfl⟩, by simp [pointOrZero, decoded]⟩

@[simp] theorem point_fromPoint (value : P.Point) :
    point P (fromPoint P value) = some value :=
  P.decompress_compress value

@[simp] theorem point_identity : point P (identity P) = some 0 :=
  P.decompress_compress 0

end Commitment

/-- `v·G`: an explicit amount with a zero blinding factor. -/
def commitPublicValue (value : UInt64) : P.Point :=
  (value.toNat : P.Scalar) • P.generatorG

/-! ### Amounts as multiples of the value generator -/

variable {P} in
/-- Amounts below the group order are told apart by their points. -/
theorem eq_zero_of_zsmul_generatorG {amount : ℤ} (small : |amount| < 2 ^ 64)
    (vanishes : amount • P.generatorG = 0) : amount = 0 := by
  rw [← Int.cast_smul_eq_zsmul P.Scalar, smul_eq_zero] at vanishes
  have scalar : (amount : P.Scalar) = 0 := vanishes.resolve_right P.generatorG_ne_zero
  have divides : (P.order : ℤ) ∣ amount := (ZMod.intCast_zmod_eq_zero_iff_dvd _ _).mp scalar
  have large : (2 ^ 64 : ℤ) < P.order := by exact_mod_cast P.order_large
  exact Int.eq_zero_of_abs_lt_dvd divides (by omega)

theorem commitPublicValue_eq_zsmul (value : UInt64) :
    commitPublicValue P value = (value.toNat : ℤ) • P.generatorG := by
  rw [commitPublicValue, ← Int.cast_smul_eq_zsmul P.Scalar]
  simp

/-! ## Kernels -/

inductive KernelFeature where
  | plain
  | coinbase
  deriving DecidableEq

structure TxKernel where
  feature : KernelFeature
  feeDarks : UInt64
  rewardDarks : UInt64
  lockHeight : UInt64
  excess : Commitment
  excessSig : SchnorrSig
  stealthExcess : Option Bytes32
  stealthSig : Option SchnorrSig
  deriving DecidableEq

inductive KernelError where
  | rewardOnPlainKernel
  | feeOnCoinbaseKernel
  | malformedExcess
  deriving DecidableEq

/-- What a kernel's stealth signature covers. -/
def kernelStealthMessage (kernelMessage : Bytes) (stealthExcess : Bytes32) : Bytes :=
  (hashMulti P Domain.kernelStealth [kernelMessage, stealthExcess.toBytes]).toBytes

namespace TxKernel

/-- Bytes the excess signature commits to: the kernel's own fields only. -/
def signingMessage (kernel : TxKernel) : Bytes :=
  let feature : UInt8 := match kernel.feature with
    | .plain => 0
    | .coinbase => 1
  (hashMulti P Domain.kernel
    [[feature], u64LeBytes kernel.feeDarks, u64LeBytes kernel.rewardDarks,
      u64LeBytes kernel.lockHeight, kernel.excess.toBytes]).toBytes

/-- Verify the excess signature.  The identity excess is refused. -/
def verifySignature (kernel : TxKernel) : Bool :=
  match Commitment.point P kernel.excess with
  | none => false
  | some excessPoint =>
      if excessPoint = 0 then false
      else P.schnorrVerify excessPoint P.generatorH (kernel.signingMessage P) kernel.excessSig

/-- The stealth excess, if present and well-formed with a valid signature. -/
def verifiedStealthExcess (kernel : TxKernel) : Option P.Point := do
  let point ← kernel.stealthExcess
  let sig ← kernel.stealthSig
  let x ← P.decompress point
  let message := kernelStealthMessage P (kernel.signingMessage P) point
  if P.schnorrVerify x P.generatorG message sig then some x else none

/-- Remove the binding fields. -/
def stripBinding (kernel : TxKernel) : TxKernel :=
  { kernel with stealthExcess := none, stealthSig := none }

/-- Stable identifier, used to order the kernels of a block. -/
def id (kernel : TxKernel) : Hash256 :=
  hashMulti P Domain.kernel [kernel.excess.toBytes, kernel.excessSig.r.toBytes]

/-- Structural sanity independent of the rest of the block. -/
def checkShape (kernel : TxKernel) : Except KernelError Unit := do
  match kernel.feature with
  | .plain => Guard.refuse (kernel.rewardDarks ≠ 0) .rewardOnPlainKernel
  | .coinbase => Guard.refuse (kernel.feeDarks ≠ 0) .feeOnCoinbaseKernel
  Guard.refuse ((Commitment.point P kernel.excess).isNone) .malformedExcess

end TxKernel

/-- `Σ outputs − Σ inputs + fee·G − reward·G`, from public data only. -/
def expectedExcess (inputs outputs : List Commitment) (feeDarks rewardDarks : UInt64) :
    Option P.Point := do
  let outputSum ← Commitment.sum P outputs
  let inputSum ← Commitment.sum P inputs
  some (outputSum - inputSum + commitPublicValue P feeDarks -
    commitPublicValue P rewardDarks)

/-! ## Outputs -/

inductive OutputFeature where
  | plain
  | coinbase
  deriving DecidableEq

namespace OutputFeature

def byte : OutputFeature → UInt8
  | plain => 0
  | coinbase => 1

def isCoinbase : OutputFeature → Bool
  | plain => false
  | coinbase => true

end OutputFeature

/-- An output as it appears on chain. -/
structure Output where
  features : OutputFeature
  commit : Commitment
  rangeProof : Bytes
  ephemeralPk : Bytes32
  outputPk : Bytes32
  viewTag : UInt8
  payload : Bytes
  senderSig : SchnorrSig
  deriving DecidableEq

namespace Output

def outputPoint (output : Output) : Option P.Point :=
  P.decompress output.outputPk

/-- Every field except the signature. -/
def commitmentBytes (output : Output) : Bytes :=
  output.features.byte :: (output.commit.toBytes ++ output.ephemeralPk.toBytes ++
    output.outputPk.toBytes ++ [output.viewTag] ++ output.rangeProof ++ output.payload)

def sigMessage (output : Output) : Bytes :=
  (hashMulti P Domain.outputSig [output.commitmentBytes]).toBytes

/-- Verify the sender's signature. -/
def verifySenderSig (output : Output) : Bool :=
  match P.decompress output.ephemeralPk with
  | none => false
  | some ke => P.schnorrVerify ke P.generatorG (output.sigMessage P) output.senderSig

end Output

/-! ## Transaction binding -/

/-- `h = Hs(Ki ‖ Ko)`, by wide reduction. -/
def inputKeyCoefficient (inputKey outputPk : Bytes32) : P.Scalar :=
  let a := hashMulti P Domain.inputKeyCoeff
    [inputKey.toBytes, outputPk.toBytes, ascii "0"]
  let b := hashMulti P Domain.inputKeyCoeff
    [inputKey.toBytes, outputPk.toBytes, ascii "1"]
  P.scalarFromWide (a.toBytes ++ b.toBytes)

/-- What the input key signature covers. -/
def inputBindMessage (commit : Commitment) (inputKey : Bytes32) : Bytes :=
  (hashMulti P Domain.inputBind [commit.toBytes, inputKey.toBytes]).toBytes

/-- Verify an input key signature against the `Ko` recorded in the UTXO set. -/
def verifyInputKey (commit : Commitment) (inputKey outputPk : Bytes32)
    (sig : SchnorrSig) : Bool :=
  match P.decompress inputKey, P.decompress outputPk with
  | some ki, some ko =>
      P.schnorrVerify (ki + inputKeyCoefficient P inputKey outputPk • ko) P.generatorG
        (inputBindMessage P commit inputKey) sig
  | _, _ => false

/-! ## Proof of work -/

/-- One Nighthash: Argon2id over the pre-image and the nonce. -/
def nighthash (headerPreimage : Bytes) (nonce : UInt64) (params : PowParams) : Hash256 :=
  let salt := (hashMulti P Domain.nighthashSalt [headerPreimage]).toBytes.take 16
  P.argon2id (headerPreimage ++ u64LeBytes nonce) salt params

/-- The four little-endian 64-bit limbs of a hash. -/
def hashLimbs (hash : Hash256) : List Nat :=
  (List.range 4).map fun index => hash.toNat >>> (64 * index) % 2 ^ 64

/-- Does `hash` satisfy `difficulty`?  The 320-bit product is formed limb by limb
and the last carry decides. -/
def meetsDifficulty (hash : Hash256) (difficulty : UInt64) : Bool :=
  if difficulty = 0 then true
  else
    let carry := (hashLimbs hash).foldl
      (fun carry limb => (limb * difficulty.toNat + carry) >>> 64) 0
    carry == 0

/-- Work contributed by a block at the given difficulty. -/
def blockWork (difficulty : UInt64) : Nat :=
  max difficulty.toNat 1

theorem blockWork_pos (difficulty : UInt64) : 0 < blockWork difficulty := by
  unfold blockWork
  omega

theorem blockWork_lt (difficulty : UInt64) : blockWork difficulty < 2 ^ 64 := by
  have := difficulty.toNat_lt
  unfold blockWork
  omega

end Nightfall
