import Nightfall.Wallet.Air
import Nightfall.Wallet.Run

/-!
# Signing air requests

A cold wallet signs every request once: the transaction, the reservation of its inputs and
the answer under the nonce of the request are kept together.
-/

namespace Nightfall

open Std (ExtTreeMap)

/-- The answer to a request: its text and the transaction that was signed. -/
structure AirSignature where
  intent : Text
  raw : Transaction
  deriving DecidableEq

/-- Most answers a wallet keeps. -/
def maxAirSigned : Nat := 4096

/-- A wallet and the requests it has signed, by their nonces. -/
structure AirWallet (P : Primitives) where
  wallet : Wallet P
  airSigned : ExtTreeMap Text AirSignature

inductive AirPaymentError where
  | air (source : AirError)
  | nonceUsed
  | historyFull
  | ownAddress
  /-- The exported state is more than an import takes. -/
  | stateTooLarge
  | payment (source : Wallet.PaymentError)
  | wallet (source : WalletError)
  deriving DecidableEq

/-- One call of `prepareAirPayment`, with the draws of the transaction and the time of its
record. -/
structure AirCall (P : Primitives) where
  draws : TransferDraws P
  intent : Intent
  maturity : UInt64
  now : UInt64
  recordedAt : UInt64
  /-- Whether the exported state is small enough to be imported again. -/
  importable : Bool

namespace AirWallet

variable {P : Primitives}

/-- The request in its one spelling, if this wallet may sign it now. -/
def acceptIntent (air : AirWallet P) (call : AirCall P) : Except AirError Intent := do
  let intent ← Intent.parse P (call.intent.toText P)
  intent.check air.wallet.network call.now
  .ok intent

/-- Sign a request that has no answer yet, on a copy of the wallet. -/
def signAirPayment (C : TransferCrypto P) (air : AirWallet P) (call : AirCall P)
    (intent : Intent) : Except AirPaymentError (Transaction × AirWallet P) := do
  Guard.refuse (maxAirSigned ≤ air.airSigned.size) .historyFull
  Guard.refuse (intent.recipient = air.wallet.keys.address) .ownAddress
  Guard.refuse (call.importable = false) .stateTooLarge
  let candidate := { air.wallet with storage := .memory }
  let tx ← (candidate.createPaymentAt C call.draws intent.recipient intent.amountDarks
    intent.feeDarks [] intent.tipHeight call.maturity).mapError .payment
  let signed := (candidate.recordSendAt tx intent.amountDarks [] call.recordedAt).2
  let adopted := { air.wallet with db := signed.db }
  adopted.save.mapError .wallet
  .ok (tx,
    { wallet := adopted
      airSigned := air.airSigned.insert intent.nonce
        { intent := intent.toText P, raw := tx } })

/-- Sign once per request.  A repeated request gets the answer it got before. -/
def prepareAirPayment (C : TransferCrypto P) (air : AirWallet P) (call : AirCall P) :
    Except AirPaymentError Transaction × AirWallet P :=
  match air.acceptIntent call with
  | .error error => (.error (.air error), air)
  | .ok intent =>
      match air.airSigned[intent.nonce]? with
      | some saved =>
          if saved.intent = intent.toText P then (.ok saved.raw, air)
          else (.error .nonceUsed, air)
      | none =>
          match air.signAirPayment C call intent with
          | .error error => (.error error, air)
          | .ok (tx, signed) => (.ok tx, signed)

/-- Forget everything discovered; the answers stay. -/
def resetScan (air : AirWallet P) : Except WalletError Unit × AirWallet P :=
  let (verdict, wallet) := air.wallet.resetScan
  (verdict, { air with wallet := wallet })

end AirWallet

/-- An operation on a wallet that signs air requests. -/
inductive AirOp (P : Primitives) where
  | onWallet (op : WalletOp P)
  | prepareAirPayment (call : AirCall P)
  | resetScan
  /-- Whether the next save succeeds. -/
  | storage (storage : Storage)

namespace AirWallet

variable {P : Primitives}

/-- The wallet that an operation leaves behind. -/
def step (S : Sealing) (C : TransferCrypto P) (air : AirWallet P) : AirOp P → AirWallet P
  | .onWallet op => { air with wallet := air.wallet.step S C op }
  | .prepareAirPayment call => (air.prepareAirPayment C call).2
  | .resetScan => air.resetScan.2
  | .storage storage => { air with wallet := { air.wallet with storage := storage } }

variable {C : TransferCrypto P} {air : AirWallet P} {call : AirCall P}

theorem acceptIntent_eq_ok {intent : Intent} : air.acceptIntent call = .ok intent ↔
    Intent.parse P (call.intent.toText P) = .ok intent ∧
      intent.check air.wallet.network call.now = .ok () := by
  simp only [acceptIntent, Guard.bind_eq_ok]
  constructor
  · rintro ⟨read, parsed, _, checked, same⟩
    cases same
    exact ⟨parsed, checked⟩
  · rintro ⟨parsed, checked⟩
    exact ⟨intent, parsed, (), checked, rfl⟩

/-- What a call that signs has checked, and what it leaves behind. -/
theorem signAirPayment_eq_ok {intent : Intent} {tx : Transaction} {signed : AirWallet P}
    (isSigned : air.signAirPayment C call intent = .ok (tx, signed)) :
    Wallet.createPaymentAt C call.draws { air.wallet with storage := .memory }
        intent.recipient intent.amountDarks intent.feeDarks [] intent.tipHeight call.maturity =
      .ok tx ∧
    signed =
      { wallet := { air.wallet with
          db := WalletFile.recordSendAt P tx intent.amountDarks [] call.recordedAt air.wallet.db }
        airSigned := air.airSigned.insert intent.nonce { intent := intent.toText P, raw := tx } } := by
  simp only [signAirPayment, Guard.bind_eq_ok, Guard.refuse_eq_ok, Guard.mapError_eq_ok] at isSigned
  obtain ⟨_, _, _, _, _, _, built, created, _, _, same⟩ := isSigned
  cases same
  exact ⟨created, rfl⟩

/-- A call leaves the wallet as it was, or signs a request whose nonce has no answer. -/
theorem prepareAirPayment_cases :
    (air.prepareAirPayment C call).2 = air ∨
      ∃ intent tx signed, air.acceptIntent call = .ok intent ∧
        air.airSigned[intent.nonce]? = none ∧
        air.signAirPayment C call intent = .ok (tx, signed) ∧
        air.prepareAirPayment C call = (.ok tx, signed) := by
  unfold prepareAirPayment
  cases accepted : air.acceptIntent call with
  | error error => exact .inl rfl
  | ok intent =>
      cases saved : air.airSigned[intent.nonce]? with
      | some answer =>
          left
          simp only [saved]
          split <;> rfl
      | none =>
          cases isSigned : air.signAirPayment C call intent with
          | error error =>
              left
              simp only [saved, isSigned]
          | ok result =>
              right
              exact ⟨intent, result.1, result.2, rfl, saved, isSigned, by
                simp only [saved, isSigned]⟩

variable {S : Sealing} {holds : List HistoryEntry → Prop}

/-- The operation is no reset, or one that recovery records forbid. -/
def Keeps (air : AirWallet P) (op : AirOp P) : Prop :=
  op = .resetScan → air.wallet.db.swapJournal ≠ []

/-- Such an operation keeps what lasts. -/
theorem lasting_step (lasting : WalletFile.Lasting P holds) {op : AirOp P} (keeps : air.Keeps op)
    (before : holds air.wallet.db.history) : holds (air.step S C op).wallet.db.history := by
  cases op with
  | onWallet op => exact Wallet.lasting_step lasting before op
  | prepareAirPayment call =>
      rcases @prepareAirPayment_cases _ C air call with same | signs
      · simp only [step, same]
        exact before
      · obtain ⟨intent, tx, signed, _, _, isSigned, returned⟩ := signs
        simp only [step, returned, (signAirPayment_eq_ok isSigned).2]
        exact lasting.recordSendAt tx _ _ _ before
  | resetScan =>
      have forbidden : air.wallet.resetScan.2 = air.wallet := by
        simp [Wallet.resetScan, keeps rfl]
      simp only [step, resetScan, forbidden]
      exact before
  | storage storage => exact before

theorem lasting_run (lasting : WalletFile.Lasting P holds) {ops : List (AirOp P)}
    (along : GuardedRun.Along (step S C) Keeps air ops) (before : holds air.wallet.db.history) :
    holds (GuardedRun.run (step S C) air ops).wallet.db.history := by
  let kept (air : AirWallet P) : Prop := holds air.wallet.db.history
  have preserved : ∀ air op, kept air → air.Keeps op → kept (air.step S C op) :=
    fun _ _ before keeps => lasting_step lasting keeps before
  exact along.invariant before preserved

/-- A run without a reset keeps what lasts. -/
theorem along_keeps {ops : List (AirOp P)} (keeps : ∀ op ∈ ops, op ≠ .resetScan) :
    GuardedRun.Along (step S C) Keeps air ops :=
  GuardedRun.Along.mono (GuardedRun.Along.of_forall_mem air keeps)
    fun _ _ noReset reset => absurd reset noReset

end AirWallet

end Nightfall
