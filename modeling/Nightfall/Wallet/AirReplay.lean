import Nightfall.Wallet.AirSigning
import Nightfall.Wallet.Promises

/-!
# Requests signed once

Over any run of a wallet, a request is signed at most once and its answer never changes.
Two requests share no input while the history remembers the first one.
-/

namespace Nightfall

open Std (ExtTreeMap)

variable {P : Primitives}

/-! ## Reservations of recorded inputs -/

namespace WalletFile

/-- A send with this id and these inputs is listed. -/
def Listed (txid : Text) (inputs : List Commitment) (history : List HistoryEntry) : Prop :=
  ∃ entry ∈ history, entry.direction = .sent ∧ entry.txid = txid ∧ entry.spentCommits = inputs

/-- A send with this id is listed as failed or confirmed. -/
def Concluded (txid : Text) (history : List HistoryEntry) : Prop :=
  ∃ entry ∈ history, entry.direction = .sent ∧ entry.txid = txid ∧
    (entry.failed = true ∨ entry.height ≠ none)

/-- Every line with the id of the transaction is a send of its inputs. -/
def Accounts (P : Primitives) (tx : Transaction) (history : List HistoryEntry) : Prop :=
  ∀ entry ∈ history, entry.txid = (tx.txid P).toHex →
    entry.direction = .sent ∧ entry.spentCommits = tx.inputs.map Input.commit

theorem lasting_listed (txid : Text) (inputs : List Commitment) :
    Lasting P (Listed txid inputs) where
  perm same listed := by
    obtain ⟨entry, member, facts⟩ := listed
    exact ⟨entry, same.mem_iff.mp member, facts⟩
  filter keeps listed := by
    obtain ⟨entry, member, sent, facts⟩ := listed
    exact ⟨entry, List.mem_filter.mpr ⟨member, keeps entry sent⟩, sent, facts⟩
  later changed listed := by
    obtain ⟨entry, member, sent, same, spends⟩ := listed
    obtain ⟨after, member, later⟩ := (exists_later changed).1 entry member
    exact ⟨after, member, later.direction.trans sent, later.txid.trans same,
      later.inputs.trans spends⟩
  discover _ _ listed := by
    obtain ⟨entry, member, facts⟩ := listed
    exact ⟨entry, List.mem_append_left _ member, facts⟩
  record _ _ _ _ _ listed := by
    obtain ⟨entry, member, facts⟩ := listed
    exact ⟨entry, List.mem_cons_of_mem _ member, facts⟩

/-- A recorded transaction is listed with its inputs. -/
theorem listed_recordSendAt {db : WalletFile} {tx : Transaction}
    (accounts : Accounts P tx db.history) (amount : UInt64) (memo : Text) (timestamp : UInt64) :
    Listed (tx.txid P).toHex (tx.inputs.map Input.commit)
      (recordSendAt P tx amount memo timestamp db).history := by
  simp only [recordSendAt]
  split
  · next known =>
      obtain ⟨entry, member, same⟩ := List.any_eq_true.mp known
      have same : entry.txid = (tx.txid P).toHex := by simpa using same
      obtain ⟨sent, spends⟩ := accounts entry member same
      exact ⟨entry, member, sent, same, spends⟩
  · exact ⟨_, List.mem_cons_self, rfl, rfl, rfl⟩

/-- The inputs of a listed send that is not concluded are reserved. -/
theorem Listed.reserved {db : WalletFile} {txid : Text} {inputs : List Commitment}
    (listed : Listed txid inputs db.history) (waits : ¬Concluded txid db.history) :
    ∀ commit ∈ inputs, commit ∈ db.pendingInputCommits := by
  intro commit spent
  obtain ⟨entry, member, sent, same, rfl⟩ := listed
  have unresolved : ¬(entry.failed = true ∨ entry.height ≠ none) :=
    fun concluded => waits ⟨entry, member, sent, same, concluded⟩
  rw [not_or, not_not, Bool.not_eq_true] at unresolved
  refine mem_pendingInputCommits.mpr ⟨entry, member, ?_, spent⟩
  rw [HistoryEntry.isPendingSend_iff]
  simp [HistoryEntry.isLiveSend, sent, unresolved]

end WalletFile

namespace AirWallet

variable {S : Sealing} {C : TransferCrypto P} {air : AirWallet P} {call : AirCall P}
  {intent : Intent} {tx : Transaction}

/-- The wallet accepts the request and returns the transaction. -/
def Answers (C : TransferCrypto P) (air : AirWallet P) (call : AirCall P) (intent : Intent)
    (tx : Transaction) : Prop :=
  air.acceptIntent call = .ok intent ∧ (air.prepareAirPayment C call).1 = .ok tx

/-- The wallet has no answer to the request yet, and signs one. -/
def Signs (C : TransferCrypto P) (air : AirWallet P) (call : AirCall P) (intent : Intent)
    (tx : Transaction) : Prop :=
  air.Answers C call intent tx ∧ air.airSigned[intent.nonce]? = none

/-! ## One call -/

theorem prepareAirPayment_of_refused {error : AirError}
    (refused : air.acceptIntent call = .error error) :
    air.prepareAirPayment C call = (.error (.air error), air) := by
  unfold prepareAirPayment
  rw [refused]

theorem prepareAirPayment_of_saved {saved : AirSignature}
    (accepted : air.acceptIntent call = .ok intent)
    (known : air.airSigned[intent.nonce]? = some saved) :
    air.prepareAirPayment C call =
      if saved.intent = intent.toText P then (.ok saved.raw, air) else (.error .nonceUsed, air) := by
  unfold prepareAirPayment
  simp only [accepted]
  rw [known]

theorem Signs.returned (signs : air.Signs C call intent tx) : ∃ signed,
    air.signAirPayment C call intent = .ok (tx, signed) ∧
      air.prepareAirPayment C call = (.ok tx, signed) := by
  obtain ⟨⟨accepted, returned⟩, unsigned⟩ := signs
  unfold prepareAirPayment at returned ⊢
  simp only [accepted] at returned ⊢
  rw [unsigned] at returned ⊢
  cases isSigned : air.signAirPayment C call intent with
  | error error =>
      rw [isSigned] at returned
      cases returned
  | ok result =>
      rw [isSigned] at returned
      cases returned
      exact ⟨result.2, rfl, rfl⟩

/-- What a call that signs leaves behind. -/
theorem Signs.signed (signs : air.Signs C call intent tx) :
    Wallet.createPaymentAt C call.draws { air.wallet with storage := .memory }
        intent.recipient intent.amountDarks intent.feeDarks [] intent.tipHeight call.maturity =
      .ok tx ∧
    (air.prepareAirPayment C call).2 =
      { wallet := { air.wallet with
          db := WalletFile.recordSendAt P tx intent.amountDarks [] call.recordedAt air.wallet.db }
        airSigned := air.airSigned.insert intent.nonce { intent := intent.toText P, raw := tx } } := by
  obtain ⟨signed, isSigned, returned⟩ := signs.returned
  obtain ⟨created, left⟩ := signAirPayment_eq_ok isSigned
  exact ⟨created, by rw [returned, left]⟩

/-- A call that the wallet accepts and that passes its checks signs. -/
theorem signs_of_created (accepted : air.acceptIntent call = .ok intent)
    (unsigned : air.airSigned[intent.nonce]? = none) (room : air.airSigned.size < maxAirSigned)
    (payee : intent.recipient ≠ air.wallet.keys.address) (importable : call.importable = true)
    (memory : air.wallet.storage = .memory)
    (created : Wallet.createPaymentAt C call.draws { air.wallet with storage := .memory }
      intent.recipient intent.amountDarks intent.feeDarks [] intent.tipHeight call.maturity =
        .ok tx) : air.Signs C call intent tx := by
  have isSigned : ∃ signed, air.signAirPayment C call intent = .ok (tx, signed) := by
    simp only [signAirPayment, Guard.bind_eq_ok, Guard.refuse_eq_ok, Guard.mapError_eq_ok]
    refine ⟨_, (), not_le.mpr room, (), payee, (), ?_, tx, created, (), ?_, rfl⟩
    · simp [importable]
    · simp [Wallet.save, memory]
  obtain ⟨signed, isSigned⟩ := isSigned
  refine ⟨⟨accepted, ?_⟩, unsigned⟩
  unfold prepareAirPayment
  simp only [accepted]
  rw [unsigned, isSigned]

/-- After an answer, the table has it. -/
theorem Answers.saved (answers : air.Answers C call intent tx) :
    (air.prepareAirPayment C call).2.airSigned[intent.nonce]? =
      some { intent := intent.toText P, raw := tx } := by
  cases known : air.airSigned[intent.nonce]? with
  | none =>
      have signs : air.Signs C call intent tx := ⟨answers, known⟩
      rw [signs.signed.2]
      exact ExtTreeMap.getElem?_insert_self
  | some saved =>
      obtain ⟨accepted, returned⟩ := answers
      rw [prepareAirPayment_of_saved accepted known] at returned ⊢
      split at returned
      · next same =>
          cases returned
          rw [if_pos same, known, ← same]
      · cases returned

/-! ## Runs -/

/-- An answer stays in the table, whatever the wallet does. -/
theorem saved_step {nonce : Text} {saved : AirSignature}
    (known : air.airSigned[nonce]? = some saved) (op : AirOp P) :
    (air.step S C op).airSigned[nonce]? = some saved := by
  cases op with
  | onWallet op => exact known
  | prepareAirPayment call =>
      rcases @prepareAirPayment_cases _ C air call with same | signs
      · simp only [step, same]
        exact known
      · obtain ⟨intent, tx, signed, _, unsigned, isSigned, returned⟩ := signs
        simp only [step, returned, (signAirPayment_eq_ok isSigned).2]
        rw [ExtTreeMap.getElem?_insert, if_neg]
        · exact known
        · intro same
          rw [Std.compare_eq_iff_eq] at same
          rw [← same, unsigned] at known
          cases known
  | resetScan => exact known
  | storage storage => exact known

theorem saved_run {nonce : Text} {saved : AirSignature}
    (known : air.airSigned[nonce]? = some saved) (ops : List (AirOp P)) :
    (GuardedRun.run (step S C) air ops).airSigned[nonce]? = some saved := by
  induction ops generalizing air with
  | nil => exact known
  | cons op rest ih => exact ih (saved_step known op)

/-- Every answer in the table was signed by a call of the run. -/
theorem signed_of_saved (unsigned : air.airSigned = ∅) {ops : List (AirOp P)} {nonce : Text}
    {saved : AirSignature}
    (known : (GuardedRun.run (step S C) air ops).airSigned[nonce]? = some saved) :
    ∃ (earlier : List (AirOp P)) (first : AirCall P) (between : List (AirOp P)) (intent : Intent),
      ops = earlier ++ .prepareAirPayment first :: between ∧
        (GuardedRun.run (step S C) air earlier).Signs C first intent saved.raw ∧
        intent.nonce = nonce ∧ intent.toText P = saved.intent := by
  -- From the last operation backwards: it wrote the entry, or the entry was there before.
  induction ops using List.reverseRecOn with
  | nil =>
      rw [GuardedRun.run_nil, unsigned] at known
      simp at known
  | append_singleton ops op ih =>
      by_cases before : (GuardedRun.run (step S C) air ops).airSigned[nonce]? = some saved
      · obtain ⟨earlier, first, between, intent, rfl, signs⟩ := ih before
        exact ⟨earlier, first, between ++ [op], intent, by simp, signs⟩
      · rw [GuardedRun.run_append, GuardedRun.run_cons, GuardedRun.run_nil] at known
        cases op with
        | onWallet op => exact absurd known before
        | prepareAirPayment call =>
            rcases @prepareAirPayment_cases _ C (GuardedRun.run (step S C) air ops) call with
              same | signs
            · simp only [step, same] at known
              exact absurd known before
            · obtain ⟨intent, tx, signed, accepted, fresh, isSigned, returned⟩ := signs
              have answers : (GuardedRun.run (step S C) air ops).Answers C call intent tx :=
                ⟨accepted, by rw [returned]⟩
              simp only [step, returned, (signAirPayment_eq_ok isSigned).2] at known
              rw [ExtTreeMap.getElem?_insert] at known
              split at known
              · next same =>
                  rw [Std.compare_eq_iff_eq] at same
                  cases known
                  exact ⟨ops, call, [], intent, rfl, ⟨answers, fresh⟩, same, rfl⟩
              · exact absurd known before
        | resetScan => exact absurd known before
        | storage storage => exact absurd known before

theorem toText_injective_of_accepted {other : AirWallet P} {again : AirCall P} {request : Intent}
    (accepted : air.acceptIntent call = .ok intent)
    (alsoAccepted : other.acceptIntent again = .ok request)
    (same : request.toText P = intent.toText P) : request = intent := by
  have first := Intent.parse_toText (Intent.canonical_of_parse (acceptIntent_eq_ok.mp accepted).1).1
  have second := Intent.parse_toText
    (Intent.canonical_of_parse (acceptIntent_eq_ok.mp alsoAccepted).1).1
  rw [same, first] at second
  exact (Except.ok.inj second).symm

/-- A coin that a signed payment spends is not reserved by a pending send. -/
theorem Signs.not_reserved (signs : air.Signs C call intent tx) {commit : Commitment}
    (input : commit ∈ tx.inputs.map Input.commit) :
    commit ∉ air.wallet.db.pendingInputCommits := by
  let candidate : Wallet P := { air.wallet with storage := .memory }
  let payment : WalletOp P := .pay call.draws intent.recipient intent.amountDarks intent.feeDarks []
    intent.tipHeight call.maturity call.recordedAt
  have built : payment.Builds C candidate tx := signs.signed.1
  obtain ⟨output, _, rfl, chooses⟩ := WalletOp.mem_inputs_of_builds built input
  exact WalletOp.not_pending_of_mayChoose chooses

/-- What two payments that a wallet signed have in common: nothing, unless the first one is
concluded or was not recorded. -/
theorem Signs.disjoint (signs : air.Signs C call intent tx)
    (accounts : WalletFile.Accounts P tx air.wallet.db.history) {between : List (AirOp P)}
    (keeps : GuardedRun.Along (step S C) Keeps (air.step S C (.prepareAirPayment call)) between)
    {again : AirCall P} {request : Intent} {paid : Transaction}
    (signsAgain : (GuardedRun.run (step S C) air (.prepareAirPayment call :: between)).Signs C again
      request paid)
    (waits : ¬WalletFile.Concluded (tx.txid P).toHex
      (GuardedRun.run (step S C) air (.prepareAirPayment call :: between)).wallet.db.history) :
    List.Disjoint (tx.inputs.map Input.commit) (paid.inputs.map Input.commit) := by
  have recorded : WalletFile.Listed (tx.txid P).toHex (tx.inputs.map Input.commit)
      (air.step S C (.prepareAirPayment call)).wallet.db.history := by
    simp only [step, signs.signed.2]
    exact WalletFile.listed_recordSendAt accounts _ _ _
  have listed := lasting_run (WalletFile.lasting_listed (P := P) _ _) keeps recorded
  intro commit spent spentAgain
  exact signsAgain.not_reserved spentAgain (listed.reserved waits commit spent)

/-- Take a wallet that has signed no request, any operations, and a call after them.

What the call returns was signed once, by this call or by an earlier one for the same
request.  A wallet that returned a transaction answers the same request with it ever after,
and refuses every other request under the nonce; a request that is not accepted, because it
expired or is for another network, is refused.  None of these answers changes the wallet.
A payment that is signed later shares no input with one that was listed when it was signed
and that no reset forgot, unless that one is recorded as failed or confirmed by then. -/
theorem requests_signed_once (unsigned : air.airSigned = ∅) (before : List (AirOp P))
    (call : AirCall P) :
    let now := GuardedRun.run (step S C) air before
    (∀ intent tx, now.Answers C call intent tx → now.Signs C call intent tx ∨
      ∃ (earlier : List (AirOp P)) (first : AirCall P) (between : List (AirOp P)),
        before = earlier ++ .prepareAirPayment first :: between ∧
          (GuardedRun.run (step S C) air earlier).Signs C first intent tx) ∧
    (∀ error, now.acceptIntent call = .error error →
      now.prepareAirPayment C call = (.error (.air error), now)) ∧
    ∀ (between : List (AirOp P)) (again : AirCall P) (intent request : Intent) (tx : Transaction),
      let later := GuardedRun.run (step S C) now (.prepareAirPayment call :: between)
      (now.Answers C call intent tx → later.acceptIntent again = .ok request →
        request.nonce = intent.nonce → later.prepareAirPayment C again =
          if request.toText P = intent.toText P then (.ok tx, later)
          else (.error .nonceUsed, later)) ∧
      (now.Signs C call intent tx → WalletFile.Accounts P tx now.wallet.db.history →
        GuardedRun.Along (step S C) Keeps (now.step S C (.prepareAirPayment call)) between →
        ∀ paid, later.Signs C again request paid →
          WalletFile.Concluded (tx.txid P).toHex later.wallet.db.history ∨
            List.Disjoint (tx.inputs.map Input.commit) (paid.inputs.map Input.commit)) := by
  intro now
  refine ⟨?_, ?_, ?_⟩
  · intro intent tx answers
    cases known : now.airSigned[intent.nonce]? with
    | none => exact .inl ⟨answers, known⟩
    | some saved =>
        obtain ⟨accepted, returned⟩ := answers
        rw [prepareAirPayment_of_saved accepted known] at returned
        split at returned
        · next same =>
            cases returned
            obtain ⟨earlier, first, between, request, parts, signs, _, sameText⟩ :=
              signed_of_saved unsigned known
            have isRequest := toText_injective_of_accepted accepted signs.1.1
              (sameText.trans same)
            subst isRequest
            exact .inr ⟨earlier, first, between, parts, signs⟩
        · cases returned
  · exact fun error refused => prepareAirPayment_of_refused refused
  · intro between again intent request tx later
    constructor
    · intro answers accepted same
      have saved := saved_run (S := S) (C := C) answers.saved between
      have known : later.airSigned[request.nonce]? =
          some { intent := intent.toText P, raw := tx } := same ▸ saved
      rw [prepareAirPayment_of_saved accepted known]
      simp only [eq_comm]
    · intro signs accounts keeps paid signsAgain
      by_cases concluded : WalletFile.Concluded (tx.txid P).toHex later.wallet.db.history
      · exact .inl concluded
      · exact .inr (signs.disjoint accounts keeps signsAgain concluded)

end AirWallet

namespace Sample

/-- A request to pay somebody else, good until second 10. -/
def airRequest (nonce : Text) : Intent where
  network := .devnet
  recipient := (WalletKeys.fromSeed primitives 1).address
  amountDarks := 200
  feeDarks := 1
  tipHeight := 1000
  nonce := nonce
  expiresUnix := 10

def airCall (draws : TransferDraws primitives) (nonce : Text) (now : UInt64) :
    AirCall primitives where
  draws := draws
  intent := airRequest nonce
  maturity := 100
  now := now
  recordedAt := 5
  importable := true

def firstNonce : Text := List.replicate 64 97
def secondNonce : Text := List.replicate 64 98

/-- A wallet that found a subsidy and has signed nothing. -/
def endowedAir : AirWallet primitives where
  wallet := (wallet.scanBlocks sealing [ownedBlock0]).2
  airSigned := ∅

/-- Sign a request, forget everything and scan again. -/
def resetOps : List (AirOp primitives) :=
  [.prepareAirPayment (airCall draws firstNonce 0), .resetScan,
    .onWallet (.scanBlocks [ownedBlock0])]

theorem canonical_airRequest {nonce : Text} (isNonce : Air.IsNonce nonce) :
    (airRequest nonce).Canonical primitives where
  scanPoint := Option.isSome_iff_exists.mpr ⟨_, primitives.decompress_compress _⟩
  spendPoint := Option.isSome_iff_exists.mpr ⟨_, primitives.decompress_compress _⟩
  amount := by
    change (200 : UInt64) ≤ maxSupplyDarks
    decide
  fee := by
    change (1 : UInt64) ≤ maxSupplyDarks
    decide
  nonce := isNonce

theorem acceptIntent_airCall {air : AirWallet primitives} (network : air.wallet.network = .devnet)
    (draws : TransferDraws primitives) {nonce : Text} (isNonce : Air.IsNonce nonce) :
    air.acceptIntent (airCall draws nonce 0) = .ok (airRequest nonce) := by
  refine AirWallet.acceptIntent_eq_ok.mpr ⟨Intent.parse_toText (canonical_airRequest isNonce), ?_⟩
  rw [network]
  rfl

theorem acceptIntent_expired {air : AirWallet primitives} (network : air.wallet.network = .devnet)
    (draws : TransferDraws primitives) {nonce : Text} (isNonce : Air.IsNonce nonce) :
    air.acceptIntent (airCall draws nonce 11) = .error (.expired 10 11) := by
  have read : Intent.parse primitives ((airRequest nonce).toText primitives) =
      .ok (airRequest nonce) :=
    Intent.parse_toText (canonical_airRequest isNonce)
  unfold AirWallet.acceptIntent
  rw [network]
  change (Intent.parse primitives ((airRequest nonce).toText primitives) >>= _) = _
  rw [read]
  rfl

theorem isNonce_replicate {byte : UInt8} (digit : Air.IsLowerHex byte) :
    Air.IsNonce (List.replicate 64 byte) :=
  ⟨List.length_replicate, fun _ member => List.eq_of_mem_replicate member ▸ digit⟩

theorem isNonce_firstNonce : Air.IsNonce firstNonce := isNonce_replicate (by decide)

theorem isNonce_secondNonce : Air.IsNonce secondNonce := isNonce_replicate (by decide)

theorem eq_ok_of_toOption {ε α : Type} {result : Except ε α} {value : α}
    (returned : result.toOption = some value) : result = .ok value := by
  cases result with
  | error error => cases returned
  | ok other => exact congrArg Except.ok (Option.some.inj returned)

/-- Both payments are built from the one coin. -/
theorem created_endowed : ∃ first second,
    Wallet.createPaymentAt crypto draws { endowedAir.wallet with storage := .memory }
        (airRequest firstNonce).recipient 200 1 [] 1000 100 = .ok first ∧
    Wallet.createPaymentAt crypto otherDraws { endowedAir.wallet with storage := .memory }
        (airRequest secondNonce).recipient 200 1 [] 1000 100 = .ok second ∧
    first.inputs.map Input.commit = [commitNew primitives 600000000 (1 : ZMod order)] ∧
    second.inputs.map Input.commit = [commitNew primitives 600000000 (1 : ZMod order)] := by
  have inputs :
      (Wallet.createPaymentAt crypto draws { endowedAir.wallet with storage := .memory }
        (airRequest firstNonce).recipient 200 1 [] 1000 100).toOption.map
          (·.inputs.map Input.commit) = some [commitNew primitives 600000000 (1 : ZMod order)] ∧
      (Wallet.createPaymentAt crypto otherDraws { endowedAir.wallet with storage := .memory }
        (airRequest secondNonce).recipient 200 1 [] 1000 100).toOption.map
          (·.inputs.map Input.commit) = some [commitNew primitives 600000000 (1 : ZMod order)] := by
    decide +kernel
  obtain ⟨⟨first, isFirst, firstInputs⟩, second, isSecond, secondInputs⟩ :=
    And.imp Option.map_eq_some_iff.mp Option.map_eq_some_iff.mp inputs
  exact ⟨first, second, eq_ok_of_toOption isFirst, eq_ok_of_toOption isSecond, firstInputs,
    secondInputs⟩

theorem endowedAir_wallet : endowedAir.wallet = { wallet with db := endowedAir.wallet.db } :=
  scanBlocks_wallet wallet [ownedBlock0]

theorem endowedAir_db : endowedAir.wallet.db.swapJournal = [] ∧
    endowedAir.wallet.db.birthHeight = 0 ∧
    ∀ entry ∈ endowedAir.wallet.db.history, entry.direction ≠ .sent := by
  decide +kernel

/-- Both requests are signed when their draws give a payment. -/
theorem signs_airCall {air : AirWallet primitives} (endowed : air.wallet = endowedAir.wallet)
    {draws : TransferDraws primitives} {nonce : Text} (isNonce : Air.IsNonce nonce)
    (unsigned : air.airSigned[nonce]? = none) (room : air.airSigned.size < maxAirSigned)
    {tx : Transaction}
    (created : Wallet.createPaymentAt crypto draws { endowedAir.wallet with storage := .memory }
      (airRequest nonce).recipient 200 1 [] 1000 100 = .ok tx) :
    air.Signs crypto (airCall draws nonce 0) (airRequest nonce) tx := by
  have network : air.wallet.network = .devnet := by
    rw [endowed, endowedAir_wallet]
    rfl
  have payee : (airRequest nonce).recipient ≠ air.wallet.keys.address := by
    rw [endowed, endowedAir_wallet]
    change (WalletKeys.fromSeed primitives 1).address ≠ keys.address
    decide +kernel
  have memory : air.wallet.storage = .memory := by
    rw [endowed, endowedAir_wallet]
    rfl
  exact AirWallet.signs_of_created (acceptIntent_airCall network draws isNonce) unsigned room payee
    rfl memory (endowed ▸ created)

/-- The wallet after its first signature. -/
theorem step_endowedAir {tx : Transaction}
    (signs : endowedAir.Signs crypto (airCall draws firstNonce 0) (airRequest firstNonce) tx) :
    endowedAir.step sealing crypto (.prepareAirPayment (airCall draws firstNonce 0)) =
      { wallet := { endowedAir.wallet with
          db := WalletFile.recordSendAt primitives tx 200 [] 5 endowedAir.wallet.db }
        airSigned := (∅ : ExtTreeMap Text AirSignature).insert firstNonce
          { intent := (airRequest firstNonce).toText primitives, raw := tx } } :=
  signs.signed.2

/-- After the reset and the scan, only the answer tells the wallet from the one before. -/
theorem reset_endowedAir (db : WalletFile) (journal : db.swapJournal = [])
    (birth : db.birthHeight = 0) (answers : ExtTreeMap Text AirSignature) :
    let reset := (⟨{ endowedAir.wallet with db := db }, answers⟩ : AirWallet primitives).step
      sealing crypto .resetScan
    reset = ⟨wallet, answers⟩ ∧
      reset.step sealing crypto (.onWallet (.scanBlocks [ownedBlock0])) =
        ⟨endowedAir.wallet, answers⟩ := by
  have reset : (⟨{ endowedAir.wallet with db := db }, answers⟩ : AirWallet primitives).step
      sealing crypto .resetScan = ⟨wallet, answers⟩ := by
    rw [endowedAir_wallet]
    simp [AirWallet.step, AirWallet.resetScan, Wallet.resetScan, Wallet.edit, journal, birth,
      wallet, Wallet.inMemory]
  exact ⟨reset, by rw [reset]; rfl⟩

/-- The answer is given again after a reset, whatever the draws are. -/
theorem endowedAir_signed_once : ∃ tx,
    endowedAir.Signs crypto (airCall draws firstNonce 0) (airRequest firstNonce) tx ∧
    (GuardedRun.run (AirWallet.step sealing crypto) endowedAir
      [.prepareAirPayment (airCall draws firstNonce 0), .resetScan]).prepareAirPayment crypto
        (airCall otherDraws firstNonce 0) =
      (.ok tx, GuardedRun.run (AirWallet.step sealing crypto) endowedAir
        [.prepareAirPayment (airCall draws firstNonce 0), .resetScan]) := by
  obtain ⟨tx, _, created, _⟩ := created_endowed
  have signs : endowedAir.Signs crypto (airCall draws firstNonce 0) (airRequest firstNonce) tx :=
    signs_airCall rfl isNonce_firstNonce ExtTreeMap.getElem?_empty
      (by simp [endowedAir, maxAirSigned]) created
  have network : (GuardedRun.run (AirWallet.step sealing crypto) endowedAir
      [.prepareAirPayment (airCall draws firstNonce 0), .resetScan]).wallet.network = .devnet := by
    simp only [GuardedRun.run_cons, GuardedRun.run_nil, step_endowedAir signs]
    rw [endowedAir_wallet]
    simp only [AirWallet.step, AirWallet.resetScan, Wallet.resetScan]
    split <;> rfl
  obtain ⟨_, _, repeated⟩ := @AirWallet.requests_signed_once _ sealing crypto endowedAir
    rfl [] (airCall draws firstNonce 0)
  have again := (repeated [.resetScan] (airCall otherDraws firstNonce 0) (airRequest firstNonce)
    (airRequest firstNonce) tx).1 signs.1
      (acceptIntent_airCall network otherDraws isNonce_firstNonce) rfl
  rw [if_pos rfl] at again
  exact ⟨tx, signs, again⟩

/-- A repeated request is refused after its time.  And after a reset, the coin of the first
payment pays another request, although the first one never failed and was never confirmed. -/
theorem answers_expire_and_reservations_reset : ∃ first second,
    endowedAir.Signs crypto (airCall draws firstNonce 0) (airRequest firstNonce) first ∧
    (airCall draws firstNonce 0).intent = (airCall draws firstNonce 11).intent ∧
    ((endowedAir.step sealing crypto (.prepareAirPayment (airCall draws firstNonce 0))
      ).prepareAirPayment crypto (airCall draws firstNonce 11)).1 =
        .error (.air (.expired 10 11)) ∧
    (GuardedRun.run (AirWallet.step sealing crypto) endowedAir resetOps).Signs crypto
      (airCall otherDraws secondNonce 0) (airRequest secondNonce) second ∧
    (∀ before after : List (AirOp primitives), resetOps = before ++ after →
      ¬WalletFile.Concluded (first.txid primitives).toHex
        (GuardedRun.run (AirWallet.step sealing crypto) endowedAir before).wallet.db.history) ∧
    ¬List.Disjoint (first.inputs.map Input.commit) (second.inputs.map Input.commit) := by
  obtain ⟨first, second, isFirst, isSecond, firstInputs, secondInputs⟩ := created_endowed
  obtain ⟨journal, birth, receipts⟩ := endowedAir_db
  have signsFirst : endowedAir.Signs crypto (airCall draws firstNonce 0) (airRequest firstNonce)
      first :=
    signs_airCall rfl isNonce_firstNonce ExtTreeMap.getElem?_empty
      (by simp [endowedAir, maxAirSigned]) isFirst
  have paid := step_endowedAir signsFirst
  let recorded := WalletFile.recordSendAt primitives first 200 [] 5 endowedAir.wallet.db
  let answers := (∅ : ExtTreeMap Text AirSignature).insert firstNonce
    { intent := (airRequest firstNonce).toText primitives, raw := first }
  have recordedJournal : recorded.swapJournal = [] := by
    simp only [recorded, WalletFile.recordSendAt]
    exact journal
  have recordedBirth : recorded.birthHeight = 0 := by
    simp only [recorded, WalletFile.recordSendAt]
    exact birth
  obtain ⟨reset, scanned⟩ := reset_endowedAir recorded recordedJournal recordedBirth answers
  have receiptsOnly : ¬WalletFile.Concluded (first.txid primitives).toHex
      endowedAir.wallet.db.history := by
    rintro ⟨entry, member, sent, _⟩
    exact receipts entry member sent
  refine ⟨first, second, signsFirst, rfl, ?_, ?_, ?_, ?_⟩
  · have network : (endowedAir.step sealing crypto
        (.prepareAirPayment (airCall draws firstNonce 0))).wallet.network = .devnet := by
      rw [paid, endowedAir_wallet]
      rfl
    rw [AirWallet.prepareAirPayment_of_refused
      (acceptIntent_expired network draws isNonce_firstNonce)]
  · have after : GuardedRun.run (AirWallet.step sealing crypto) endowedAir resetOps =
        ⟨endowedAir.wallet, answers⟩ := by
      simp only [resetOps, GuardedRun.run_cons, GuardedRun.run_nil, paid]
      exact scanned
    have endowed : (GuardedRun.run (AirWallet.step sealing crypto) endowedAir resetOps).wallet =
        endowedAir.wallet := by
      rw [after]
    refine signs_airCall endowed isNonce_secondNonce ?_ ?_ isSecond
    · rw [after, ExtTreeMap.getElem?_insert, if_neg, ExtTreeMap.getElem?_empty]
      rw [Std.compare_eq_iff_eq]
      simp [firstNonce, secondNonce]
    · have atMostOne : answers.size ≤ 1 := ExtTreeMap.size_insert_le
      rw [after]
      exact lt_of_le_of_lt atMostOne (by simp [maxAirSigned])
  · intro before after parts
    have isBefore : before ∈ resetOps.inits := (List.mem_inits _ _).mpr ⟨after, parts.symm⟩
    simp only [resetOps, List.inits, List.map_cons, List.map_nil, List.mem_cons, List.not_mem_nil,
      or_false] at isBefore
    rcases isBefore with rfl | rfl | rfl | rfl
    · exact receiptsOnly
    · simp only [GuardedRun.run_cons, GuardedRun.run_nil, paid]
      rintro ⟨entry, member, sent, same, concluded⟩
      simp only [WalletFile.recordSendAt] at member
      split at member
      · exact receipts entry member sent
      · cases List.mem_cons.mp member with
        | inl here =>
            rw [here] at concluded
            simp at concluded
        | inr listed => exact receipts entry listed sent
    · simp only [GuardedRun.run_cons, GuardedRun.run_nil, paid]
      rw [reset]
      rintro ⟨entry, member, _⟩
      cases member
    · simp only [GuardedRun.run_cons, GuardedRun.run_nil, paid]
      rw [scanned]
      exact receiptsOnly
  · rw [firstInputs, secondInputs]
    simp

end Sample

end Nightfall
