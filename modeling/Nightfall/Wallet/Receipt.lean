import Nightfall.Ledger.BodyHash
import Nightfall.Wallet.PaymentRequest
import Nightfall.Wallet.AirFrames

/-!
# Payment receipts

A receipt opens one output and is signed by the wallet's spend key.  Version 2 signs every
field, version 1 leaves two of them out, and each version hashes under a domain of its own.
The bytes that are hashed determine the domain and all the parts, so a signed message says
which version and which fields were signed.
-/

namespace Nightfall

variable (P : Primitives)

/-! ## Receipts -/

namespace Domain

def receipt : Bytes := ascii "nightfall:receipt:v1"
def receiptV2 : Bytes := ascii "nightfall:receipt:v2"

end Domain

/-- What the wallet writes. -/
def receiptVersion : Nat := 2

/-- The fields that a version 1 signature does not cover. -/
def v1Unsigned : List Text :=
  [ascii "kind", ascii "timestamp"]

structure PaymentReceipt where
  v : Nat
  kind : Text
  address : Text
  amountDarks : UInt64
  memo : Text
  commit : Text
  blind : Text
  height : UInt64
  timestamp : UInt64
  sigR : Text
  sigS : Text
  deriving DecidableEq

/-- What a version 1 message is hashed from. -/
def receiptParts (receipt : PaymentReceipt) : List Bytes :=
  [receipt.address, u64LeBytes receipt.amountDarks, receipt.commit, receipt.blind, receipt.memo,
    u64LeBytes receipt.height]

/-- What a version 2 message is hashed from: everything that the document shows. -/
def receiptPartsV2 (receipt : PaymentReceipt) : List Bytes :=
  [receipt.kind, receipt.address, u64LeBytes receipt.amountDarks, receipt.commit, receipt.blind,
    receipt.memo, u64LeBytes receipt.height, u64LeBytes receipt.timestamp]

def receiptMsg (receipt : PaymentReceipt) : Hash256 :=
  hashMulti P Domain.receipt (receiptParts receipt)

def receiptMsgV2 (receipt : PaymentReceipt) : Hash256 :=
  hashMulti P Domain.receiptV2 (receiptPartsV2 receipt)

/-- Sign a receipt with the spend key, whose signatures are `sign`. -/
def signReceipt (sign : Bytes → SchnorrSig) (receipt : PaymentReceipt) : PaymentReceipt :=
  let sig := sign (receiptMsgV2 P receipt).toBytes
  { receipt with
    v := receiptVersion
    sigR := Hex.encode sig.r.toBytes
    sigS := Hex.encode sig.s.toBytes }

/-- What kind of payment a receipt describes. -/
inductive ReceiptKind where
  | received
  | mined
  | sent
  | other
  deriving DecidableEq

def ReceiptKind.parse (text : Text) : ReceiptKind :=
  if text = ascii "received" then received
  else if text = ascii "mined" then mined
  else if text = ascii "sent" then sent
  else other

/-- What a receipt was found to prove. -/
structure ReceiptProof where
  version : Nat
  kind : ReceiptKind
  address : Text
  amountDarks : UInt64
  memo : Text
  height : UInt64
  timestamp : UInt64
  reference : Text
  amountProven : Bool
  unsignedFields : List Text
  deriving DecidableEq

inductive ReceiptError where
  | unknownVersion (version : Nat)
  | address
  | commitHex
  | commitLength
  | blindHex
  | blindLength
  | blindNotCanonical
  | doesNotOpen
  | sigR
  | sigS
  | sigLength
  | spendPublicKey
  | badSignature
  deriving DecidableEq

/-- Check the opening of a receipt with a blinding factor. -/
def checkOpening (receipt : PaymentReceipt) : Except ReceiptError Unit := do
  let raw ← Guard.need (Hex.decode receipt.commit) .commitHex
  let commit ← Guard.need (Bytes32.ofBytes raw) .commitLength
  let blindRaw ← Guard.need (Hex.decode receipt.blind) .blindHex
  let bytes ← Guard.need (Bytes32.ofBytes blindRaw) .blindLength
  let blind ← Guard.need (P.scalarFromBytes bytes) .blindNotCanonical
  Guard.refuse (commitNew P receipt.amountDarks blind ≠ commit) .doesNotOpen

/-- The fields that the signature of a version leaves out. -/
def unsignedFields (version : Nat) : Except ReceiptError (List Text) :=
  match version with
  | 1 => .ok v1Unsigned
  | 2 => .ok []
  | other => .error (.unknownVersion other)

/-- The message that the signature of a receipt covers. -/
def signedMessage (receipt : PaymentReceipt) : Bytes :=
  (if receipt.v = 1 then receiptMsg P receipt else receiptMsgV2 P receipt).toBytes

/-- Verify a receipt and report what that established. -/
def verifyReceipt (receipt : PaymentReceipt) : Except ReceiptError ReceiptProof := do
  let unsigned ← unsignedFields receipt.v
  let addr ← (Address.decode P receipt.address).mapError fun _ => .address
  Guard.onlyIf (receipt.blind ≠ []) (checkOpening P receipt)
  let r ← Guard.need (Hex.decode receipt.sigR) .sigR
  let s ← Guard.need (Hex.decode receipt.sigS) .sigS
  let sigR ← Guard.need (Bytes32.ofBytes r) .sigLength
  let sigS ← Guard.need (Bytes32.ofBytes s) .sigLength
  let pk ← Guard.need (P.decompress addr.spendPk) .spendPublicKey
  Guard.refuse (¬P.schnorrVerify pk P.generatorG (signedMessage P receipt) ⟨sigR, sigS⟩)
    .badSignature
  .ok {
    version := receipt.v
    kind := .parse receipt.kind
    address := receipt.address
    amountDarks := receipt.amountDarks
    memo := receipt.memo
    height := receipt.height
    timestamp := receipt.timestamp
    reference := receipt.commit
    amountProven := receipt.blind ≠ []
    unsignedFields := unsigned }

/-! ## Preimages -/

/-- The bytes that are hashed determine the domain and every part. -/
theorem hashPreimage_inj {domain other : Bytes} {parts others : List Bytes}
    (fits : domain.length < 2 ^ 64) (otherFits : other.length < 2 ^ 64) (framed : Framed parts)
    (otherFramed : Framed others) (same : hashPreimage domain parts = hashPreimage other others) :
    domain = other ∧ parts = others := by
  have domains : domain = other := by
    have bytes := same
    simp only [hashPreimage, List.append_assoc] at bytes
    obtain ⟨prefixes, behind⟩ := List.append_inj bytes (by simp)
    exact (List.append_inj behind (u64LeBytes_length_inj fits otherFits prefixes)).1
  subst domains
  exact ⟨rfl, parts_eq_of_hashPreimage_eq framed otherFramed same⟩

/-- What is hashed under a domain of its own. -/
inductive Digested where
  | txid (tx : Transaction)
  | legacyTxid (tx : Transaction)
  | receiptMsg (receipt : PaymentReceipt)
  | receiptMsgV2 (receipt : PaymentReceipt)
  | bodyHash (body : BlockBody)
  | air (payload : Bytes)

namespace Digested

def hash : Digested → Hash256
  | txid tx => tx.txid P
  | legacyTxid tx => tx.legacyTxid P
  | receiptMsg receipt => Nightfall.receiptMsg P receipt
  | receiptMsgV2 receipt => Nightfall.receiptMsgV2 P receipt
  | bodyHash body => body.hash P
  | air payload => hashMulti P Domain.air [payload]

def domain : Digested → Bytes
  | txid tx => if tx.hasAnyBinding then Domain.txBound else Domain.tx
  | legacyTxid _ => Domain.tx
  | receiptMsg _ => Domain.receipt
  | receiptMsgV2 _ => Domain.receiptV2
  | bodyHash body => if body.hasAnyBinding then Domain.txbodyBound else Domain.txbody
  | air _ => Domain.air

/-- The parts of a transaction id without binding fields. -/
def legacyTxParts (tx : Transaction) : List Bytes :=
  ((tx.inputs.map Input.commit).insertionSort (· ≤ ·)).map Bytes32.toBytes ++
    tx.outputs.map Output.commitmentBytes ++
    tx.kernels.map fun kernel => kernel.signingMessage P

/-- The parts of a transaction id over the whole body. -/
def boundTxParts (tx : Transaction) : List Bytes :=
  let inputs := tx.inputs.insertionSort fun left right => left.commit ≤ right.commit
  (inputs.map fun input => input.commit.toBytes ++ (input.inputKey.getD 0).toBytes) ++
    tx.outputs.map Output.commitmentBytes ++
    (tx.kernels.map fun kernel =>
      kernel.signingMessage P ++ (kernel.stealthExcess.getD 0).toBytes) ++
    [(tx.stealthOffset.getD 0).toBytes, (tx.kernelOffset.getD 0).toBytes]

/-- The parts of a body hash. -/
def bodyParts (body : BlockBody) : List Bytes :=
  let bound := body.hasAnyBinding
  let parts := body.inputs.map (BlockBody.inputHashPart bound) ++
    body.outputs.map BlockBody.outputHashPart ++
    body.kernels.map (BlockBody.kernelHashPart P bound)
  if bound then
    parts ++ [(body.stealthOffset.getD 0).toBytes, (body.kernelOffset.getD 0).toBytes]
  else parts

def parts : Digested → List Bytes
  | txid tx => if tx.hasAnyBinding then boundTxParts P tx else legacyTxParts P tx
  | legacyTxid tx => legacyTxParts P tx
  | receiptMsg receipt => receiptParts receipt
  | receiptMsgV2 receipt => receiptPartsV2 receipt
  | bodyHash body => bodyParts P body
  | air payload => [payload]

def preimage (digested : Digested) : Bytes :=
  hashPreimage digested.domain (digested.parts P)

/-- Every digest is the hash of its own preimage. -/
theorem hash_eq (digested : Digested) : digested.hash P = P.blake3 (digested.preimage P) := by
  cases digested with
  | txid tx =>
      simp only [hash, preimage, domain, parts, Transaction.txid]
      cases tx.hasAnyBinding with
      | false => rfl
      | true => rfl
  | legacyTxid tx => rfl
  | receiptMsg receipt => rfl
  | receiptMsgV2 receipt => rfl
  | bodyHash body =>
      simp only [hash, preimage, domain, parts, bodyParts, BlockBody.hash]
      cases body.hasAnyBinding with
      | false => rfl
      | true => rfl
  | air payload => rfl

theorem domain_fits (digested : Digested) : digested.domain.length < 2 ^ 64 := by
  have short : ∀ domain ∈ [Domain.tx, Domain.txBound, Domain.receipt, Domain.receiptV2,
      Domain.txbody, Domain.txbodyBound, Domain.air], domain.length < 2 ^ 64 := by
    decide
  apply short
  cases digested with
  | txid tx => cases bound : tx.hasAnyBinding <;> simp [domain, bound]
  | legacyTxid tx => simp [domain]
  | receiptMsg receipt => simp [domain]
  | receiptMsgV2 receipt => simp [domain]
  | bodyHash body => cases bound : body.hasAnyBinding <;> simp [domain, bound]
  | air payload => simp [domain]

variable {P}

/-- Equal digests have one domain and the same parts. -/
theorem parts_eq_of_hash_eq {left right : Digested} (leftFramed : Framed (left.parts P))
    (rightFramed : Framed (right.parts P))
    (collisionFree : P.CollisionFreeOn [left.preimage P, right.preimage P])
    (same : left.hash P = right.hash P) :
    left.domain = right.domain ∧ left.parts P = right.parts P := by
  rw [hash_eq, hash_eq] at same
  have bytes := collisionFree _ (by simp) _ (by simp) same
  exact hashPreimage_inj left.domain_fits right.domain_fits leftFramed rightFramed bytes

end Digested

/-! ## Signed receipts -/

namespace PaymentReceipt

/-- The texts of a receipt fit their length prefixes. -/
structure Fits (receipt : PaymentReceipt) : Prop where
  kind : receipt.kind.length < 2 ^ 64
  address : receipt.address.length < 2 ^ 64
  commit : receipt.commit.length < 2 ^ 64
  blind : receipt.blind.length < 2 ^ 64
  memo : receipt.memo.length < 2 ^ 64

instance (receipt : PaymentReceipt) : Decidable receipt.Fits :=
  decidable_of_iff (receipt.kind.length < 2 ^ 64 ∧ receipt.address.length < 2 ^ 64 ∧
      receipt.commit.length < 2 ^ 64 ∧ receipt.blind.length < 2 ^ 64 ∧
      receipt.memo.length < 2 ^ 64)
    ⟨fun fits => ⟨fits.1, fits.2.1, fits.2.2.1, fits.2.2.2.1, fits.2.2.2.2⟩,
      fun fits => ⟨fits.kind, fits.address, fits.commit, fits.blind, fits.memo⟩⟩

/-- Two receipts say the same, whatever their signatures. -/
structure Agrees (receipt other : PaymentReceipt) : Prop where
  v : receipt.v = other.v
  kind : receipt.kind = other.kind
  address : receipt.address = other.address
  amountDarks : receipt.amountDarks = other.amountDarks
  commit : receipt.commit = other.commit
  blind : receipt.blind = other.blind
  memo : receipt.memo = other.memo
  height : receipt.height = other.height
  timestamp : receipt.timestamp = other.timestamp

variable {receipt other : PaymentReceipt}

theorem Fits.framed (fits : receipt.Fits) : Framed (receiptParts receipt) where
  count := by simp [receiptParts]
  lengths := by
    simpa [receiptParts] using ⟨fits.address, fits.commit, fits.blind, fits.memo⟩

theorem Fits.framedV2 (fits : receipt.Fits) : Framed (receiptPartsV2 receipt) where
  count := by simp [receiptPartsV2]
  lengths := by
    simpa [receiptPartsV2] using ⟨fits.kind, fits.address, fits.commit, fits.blind, fits.memo⟩

theorem agrees_of_parts (version : receipt.v = 2) (sign : Bytes → SchnorrSig)
    (same : receiptPartsV2 other = receiptPartsV2 receipt) :
    (signReceipt P sign other).Agrees receipt := by
  simp only [receiptPartsV2, List.cons.injEq, and_true] at same
  obtain ⟨kind, address, amount, commit, blind, memo, height, timestamp⟩ := same
  exact ⟨version.symm, kind, address, u64LeBytes_injective amount, commit, blind, memo,
    u64LeBytes_injective height, u64LeBytes_injective timestamp⟩

end PaymentReceipt

variable {P}

/-- What verification has checked, and what it reports. -/
theorem verifyReceipt_eq_ok {receipt : PaymentReceipt} {proof : ReceiptProof}
    (verified : verifyReceipt P receipt = .ok proof) :
    ∃ address key sig, Address.decode P receipt.address = .ok address ∧
      P.decompress address.spendPk = some key ∧
      P.schnorrVerify key P.generatorG (signedMessage P receipt) sig = true := by
  simp only [verifyReceipt, Guard.bind_eq_ok, Guard.need_eq_ok, Guard.mapError_eq_ok,
    Guard.refuse_eq_ok, not_not] at verified
  obtain ⟨_, _, address, decoded, _, _, _, _, _, _, sigR, _, sigS, _, key, point, _, signed, _⟩ :=
    verified
  exact ⟨address, key, ⟨sigR, sigS⟩, decoded, point, signed⟩

/-- What the key has signed: the version 2 messages of `drafts`, and version 1 messages. -/
def SignedOnly (P : Primitives) (key : P.Point) (drafts legacy : List PaymentReceipt) : Prop :=
  ∀ message sig, P.schnorrVerify key P.generatorG message sig = true →
    (∃ draft ∈ drafts, message = (receiptMsgV2 P draft).toBytes) ∨
      ∃ old ∈ legacy, message = (receiptMsg P old).toBytes

/-- An accepted version 2 receipt says what a receipt says that the key signed. -/
theorem agrees_of_verified {key : P.Point} {address : Address} {drafts legacy : List PaymentReceipt}
    {receipt : PaymentReceipt} {proof : ReceiptProof} (sign : Bytes → SchnorrSig)
    (fits : ∀ written ∈ receipt :: drafts ++ legacy, written.Fits)
    (collisionFree : P.CollisionFreeOn
      ((receipt :: drafts).map (fun draft => (Digested.receiptMsgV2 draft).preimage P) ++
        legacy.map fun old => (Digested.receiptMsg old).preimage P))
    (unforged : SignedOnly P key drafts legacy) (version : receipt.v = 2)
    (named : Address.decode P receipt.address = .ok address)
    (point : P.decompress address.spendPk = some key)
    (verified : verifyReceipt P receipt = .ok proof) :
    ∃ draft ∈ drafts, (signReceipt P sign draft).Agrees receipt := by
  obtain ⟨found, foundKey, sig, decoded, foundPoint, signed⟩ := verifyReceipt_eq_ok verified
  obtain rfl := Except.ok.inj (named.symm.trans decoded)
  obtain rfl := Option.some.inj (point.symm.trans foundPoint)
  have message : signedMessage P receipt = (receiptMsgV2 P receipt).toBytes := by
    rw [signedMessage, version]
    rfl
  rw [message] at signed
  have receiptFits := fits receipt (by simp)
  rcases unforged _ sig signed with ⟨draft, drafted, same⟩ | ⟨old, written, same⟩
  · have hashes := Bytes32.toBytes_injective same
    have parts := (@Digested.parts_eq_of_hash_eq _ (.receiptMsgV2 receipt) (.receiptMsgV2 draft)
      receiptFits.framedV2 (fits draft (by simp [drafted])).framedV2 (collisionFree.mono ?_)
      hashes).2
    · exact ⟨draft, drafted, PaymentReceipt.agrees_of_parts P version sign parts.symm⟩
    · intro preimage member
      rw [List.mem_append, List.map_cons]
      rcases List.mem_pair.mp member with rfl | rfl
      · exact .inl List.mem_cons_self
      · exact .inl (List.mem_cons_of_mem _ (List.mem_map_of_mem drafted))
  · have hashes := Bytes32.toBytes_injective same
    have domains := (@Digested.parts_eq_of_hash_eq _ (.receiptMsgV2 receipt) (.receiptMsg old)
      receiptFits.framedV2 (fits old (by simp [written])).framed (collisionFree.mono ?_) hashes).1
    · exact absurd domains (by decide : Domain.receiptV2 ≠ Domain.receipt)
    · intro preimage member
      rw [List.mem_append, List.map_cons]
      rcases List.mem_pair.mp member with rfl | rfl
      · exact .inl List.mem_cons_self
      · exact .inr (List.mem_map_of_mem written)

namespace Sample

/-- A receipt for a payment, before it is signed. -/
def sentDraft : PaymentReceipt where
  v := 1
  kind := ascii "sent"
  address := Address.encode primitives ⟨compress ((3 : Nat) : ZMod order), compress ((5 : Nat) : ZMod order)⟩
  amountDarks := 7
  memo := ascii "tea"
  commit := ascii "00"
  blind := []
  height := 4
  timestamp := 1060
  sigR := []
  sigS := []

/-- The verifier takes the message of that receipt and no other. -/
def oneSignature : Primitives :=
  { primitives with
    schnorrVerify := fun _ _ message _ => message = (receiptMsgV2 primitives sentDraft).toBytes }

def sentReceipt : PaymentReceipt :=
  signReceipt oneSignature (fun _ => ⟨1, 2⟩) sentDraft

/-- A hash of 200 bits, behind six bytes of zeros. -/
def shortHash : Primitives :=
  { primitives with
    blake3 := fun bytes => BitVec.ofNat 256 (digest bytes).toNat % 2 ^ 200 }

end Sample

end Nightfall
