import Nightfall.Wallet.Run
import Nightfall.Wallet.Sample

/-!
# Coins promised to sends

A coin is promised while a pending send spends it.  `coins_promised_once` says under which
condition on the payments of a run no coin is promised twice: the selection looks at
pending sends and at the spent flags, and not at the inputs of settled sends.
-/

namespace Nightfall

variable {P : Primitives}

namespace HistoryEntry

/-- A send that was not given up. -/
def isLiveSend (entry : HistoryEntry) : Bool :=
  entry.direction == .sent && !entry.failed

/-- A live send that a block has settled. -/
def isSettledSend (entry : HistoryEntry) : Bool :=
  entry.isLiveSend && entry.height.isSome

theorem isPendingSend_iff {entry : HistoryEntry} :
    entry.isPendingSend ↔ entry.isLiveSend ∧ entry.height = none := by
  simp [isPendingSend, isPending, isLiveSend]
  tauto

theorem isSettledSend_iff {entry : HistoryEntry} :
    entry.isSettledSend ↔ entry.isLiveSend ∧ entry.height ≠ none := by
  simp [isSettledSend, Option.isSome_iff_ne_none]

end HistoryEntry

namespace WalletFile

/-! ## Claims -/

/-- The inputs of every live send. -/
def claimsOf (history : List HistoryEntry) : List (List Commitment) :=
  (history.filter HistoryEntry.isLiveSend).map HistoryEntry.spentCommits

def claims (db : WalletFile) : List (List Commitment) :=
  claimsOf db.history

/-- The inputs of any two pending sends are disjoint. -/
def PromisedOnce (db : WalletFile) : Prop :=
  (db.pendingSends.map Prod.snd).Pairwise List.Disjoint

theorem pendingSends_sublist (db : WalletFile) :
    (db.pendingSends.map Prod.snd).Sublist db.claims := by
  rw [pendingSends, List.map_map, claims, claimsOf]
  apply List.Sublist.map
  apply List.monotone_filter_right
  intro entry pending
  exact (HistoryEntry.isPendingSend_iff.mp pending).1

theorem PromisedOnce.of_claims {db : WalletFile} (apart : db.claims.Pairwise List.Disjoint) :
    db.PromisedOnce :=
  apart.sublist db.pendingSends_sublist

theorem pairwise_disjoint_perm {left right : List (List Commitment)} (perm : left.Perm right) :
    left.Pairwise List.Disjoint ↔ right.Pairwise List.Disjoint :=
  perm.pairwise_iff fun apart => List.Disjoint.symm apart

theorem claimsOf_perm {history permuted : List HistoryEntry} (perm : history.Perm permuted) :
    (claimsOf history).Perm (claimsOf permuted) :=
  (perm.filter _).map _

/-- A change of the entries that keeps direction, failure and inputs keeps the claims. -/
theorem claimsOf_map (history : List HistoryEntry) {change : HistoryEntry → HistoryEntry}
    (direction : ∀ entry, (change entry).direction = entry.direction)
    (failed : ∀ entry, (change entry).failed = entry.failed)
    (inputs : ∀ entry, (change entry).spentCommits = entry.spentCommits) :
    claimsOf (history.map change) = claimsOf history := by
  have live (entry : HistoryEntry) :
      (HistoryEntry.isLiveSend ∘ change) entry = entry.isLiveSend := by
    simp [HistoryEntry.isLiveSend, direction, failed]
  rw [claimsOf, List.filter_map, List.map_map, List.filter_congr fun entry _ => live entry]
  exact List.map_congr_left fun entry _ => inputs entry

/-- Dropping entries that are no live sends keeps the claims. -/
theorem claimsOf_filter {history : List HistoryEntry} {keep : HistoryEntry → Bool}
    (keeps : ∀ entry ∈ history, entry.isLiveSend → keep entry) :
    claimsOf (history.filter keep) = claimsOf history := by
  rw [claimsOf, claimsOf, List.filter_filter]
  congr 1
  apply List.filter_congr
  intro entry member
  cases live : entry.isLiveSend with
  | false => rfl
  | true => exact keeps entry member live

theorem claimsOf_cons (entry : HistoryEntry) (rest : List HistoryEntry) :
    claimsOf (entry :: rest) =
      if entry.isLiveSend then entry.spentCommits :: claimsOf rest else claimsOf rest := by
  rw [claimsOf, List.filter_cons]
  split <;> rfl

theorem claimsOf_confirmFirst (txid : Text) (height timestamp : UInt64)
    (history : List HistoryEntry) :
    claimsOf (confirmFirst txid height timestamp history) = claimsOf history := by
  induction history with
  | nil => rfl
  | cons entry rest ih =>
      unfold confirmFirst
      split
      · rw [claimsOf_cons, claimsOf_cons]
        rfl
      · rw [claimsOf_cons, claimsOf_cons, ih]

theorem claimsOf_confirmAll (confirmed : List (Text × UInt64 × UInt64))
    (history : List HistoryEntry) : claimsOf (confirmAll confirmed history) = claimsOf history := by
  induction confirmed generalizing history with
  | nil => rfl
  | cons first rest ih =>
      have unfolded : confirmAll (first :: rest) history =
          confirmAll rest (confirmFirst first.1 first.2.1 first.2.2 history) := rfl
      rw [unfolded, ih, claimsOf_confirmFirst]

/-- Receipts that are appended claim nothing. -/
theorem claimsOf_appendNew {same : HistoryEntry → HistoryEntry → Bool} {found : List HistoryEntry}
    (receipts : ∀ entry ∈ found, entry.direction ≠ .sent) (history : List HistoryEntry) :
    claimsOf (appendNew same found history) = claimsOf history := by
  induction found generalizing history with
  | nil => rfl
  | cons first rest ih =>
      have later := ih fun entry member => receipts entry (List.mem_cons_of_mem _ member)
      have quiet : first.isLiveSend = false := by
        simp [HistoryEntry.isLiveSend, receipts first List.mem_cons_self]
      rw [appendNew, List.foldl_cons]
      split
      · exact later history
      · refine (later _).trans ?_
        simp [claimsOf, quiet]

theorem claimsOf_sortHistory (history : List HistoryEntry) :
    (claimsOf (sortHistory history)).Perm (claimsOf history) :=
  claimsOf_perm (List.perm_insertionSort _ _)

/-! ## What the operations do to the claims -/

theorem claimsOf_settledHistory (scanner : Scanner P) (db : WalletFile) (blocks : List Block)
    (force : Bool) : claimsOf (db.settledHistory scanner blocks force) = db.claims := by
  unfold settledHistory
  split
  · simp only [reconcileWith]
    rw [claimsOf_map, claimsOf_filter, claims]
    · intro entry _ live
      have sent : entry.direction = .sent := by
        simp only [HistoryEntry.isLiveSend, Bool.and_eq_true, beq_iff_eq] at live
        exact live.1
      simp [keepsEntry, sent]
    · exact unconfirm_direction _
    · intro entry
      unfold unconfirm
      split <;> rfl
    · intro entry
      unfold unconfirm
      split <;> rfl
  · rfl

theorem claims_scanBlocksInner (scanner : Scanner P) (db : WalletFile) (blocks : List Block)
    (force : Bool) : (db.scanBlocksInner scanner blocks force).1.claims.Perm db.claims := by
  rw [claims, scanBlocksInner_history]
  refine (claimsOf_sortHistory _).trans ?_
  rw [claimsOf_appendNew, claimsOf_confirmAll, claimsOf_settledHistory]
  intro entry member
  obtain ⟨block, _, member⟩ := List.mem_flatMap.mp member
  obtain ⟨_, _, _, found, _, _, rfl⟩ := mem_incomingOf.mp member
  exact (incoming_isReceipt found _ _ _).1

theorem claims_ingestScanPage (scanner : Scanner P) (db : WalletFile) (page : ScanPage) :
    (db.ingestScanPage scanner page).1.claims.Perm db.claims := by
  refine (claimsOf_sortHistory _).trans ?_
  rw [claimsOf_appendNew, claimsOf_confirmAll, claims]
  intro entry member
  obtain ⟨⟨output, found⟩, _, rfl⟩ := List.mem_map.mp member
  exact (incoming_isReceipt found _ _ _).1

/-- A light rescan keeps every send, and with it the claims. -/
theorem claims_rescanned (db : WalletFile) :
    claimsOf ((db.history.filter fun entry => entry.direction == .sent).map
      fun entry => { entry with height := none, quarantined := true }) = db.claims := by
  have kept : claimsOf (db.history.filter fun entry => entry.direction == .sent) =
      db.claims := by
    apply claimsOf_filter
    intro entry _ live
    simp only [HistoryEntry.isLiveSend, Bool.and_eq_true] at live
    exact live.1
  rw [← kept]
  exact claimsOf_map _ (fun _ => rfl) (fun _ => rfl) fun _ => rfl

theorem claims_quarantinePendingSends (db : WalletFile) :
    db.quarantinePendingSends.claims = db.claims := by
  refine claimsOf_map _ ?_ ?_ ?_ <;> intro entry <;> split <;> rfl

theorem claims_quarantineImportedSends (db : WalletFile) :
    db.quarantineImportedSends.claims = db.claims := by
  refine claimsOf_map _ ?_ ?_ ?_ <;> intro entry <;> split <;> rfl

/-- A release only takes claims away. -/
theorem claims_releaseSends (db : WalletFile) (txids : List Text) (unspend : List Commitment) :
    (db.releaseSends txids unspend).1.claims.Sublist db.claims := by
  have fewer (history : List HistoryEntry) :
      (claimsOf (history.map (failSend txids))).Sublist (claimsOf history) := by
    induction history with
    | nil => exact List.Sublist.slnil
    | cons entry rest ih =>
        by_cases given : entry.isPendingSend ∧ entry.txid ∈ txids
        · have gone : (failSend txids entry).isLiveSend = false := by
            simp [failSend, given, HistoryEntry.isLiveSend]
          have live := (HistoryEntry.isPendingSend_iff.mp given.1).1
          simpa [claimsOf, gone, live] using ih.cons entry.spentCommits
        · have same : failSend txids entry = entry := if_neg given
          rw [claimsOf, List.map_cons, same]
          cases live : entry.isLiveSend with
          | false => simpa [claimsOf, live] using ih
          | true => simpa [claimsOf, live] using ih.cons_cons entry.spentCommits
  simp only [releaseSends]
  split
  · exact List.Sublist.refl _
  · exact fewer db.history

/-- A recorded send claims its inputs, once. -/
theorem claims_recordSendAt (tx : Transaction) (amount : UInt64) (memo : Text)
    (timestamp : UInt64) (db : WalletFile) :
    (recordSendAt P tx amount memo timestamp db).claims = db.claims ∨
      (recordSendAt P tx amount memo timestamp db).claims =
        tx.inputs.map Input.commit :: db.claims := by
  simp only [recordSendAt, claims]
  split
  · exact .inl rfl
  · exact .inr (by simp [claimsOf, HistoryEntry.isLiveSend])

theorem mem_claims {db : WalletFile} {inputs : List Commitment} :
    inputs ∈ db.claims ↔ ∃ entry ∈ db.history, entry.isLiveSend ∧ entry.spentCommits = inputs := by
  simp [claims, claimsOf, and_assoc]

end WalletFile

/-! ## Payments -/

namespace WalletFile

theorem toSpendable_commit {keys : WalletKeys P} {output : OwnedOutput} {coin : Spendable P}
    (spendable : output.toSpendable keys = .ok coin) : coin.commit = output.commit := by
  simp only [OwnedOutput.toSpendable, Guard.bind_eq_ok, Except.ok.injEq] at spendable
  obtain ⟨_, _, _, _, rfl⟩ := spendable
  rfl

/-- Chosen coins are outputs of the list. -/
theorem mem_chooseCoins {keys : WalletKeys P} {target total reached : UInt64}
    {outputs : List OwnedOutput} {coins : List (Spendable P)}
    (chosen : chooseCoins keys target total outputs = .ok (coins, reached)) :
    ∀ coin ∈ coins, ∃ output ∈ outputs, output.commit = coin.commit := by
  induction outputs generalizing total coins with
  | nil =>
      cases chosen
      simp
  | cons first rest ih =>
      unfold chooseCoins at chosen
      split at chosen
      · cases chosen
        simp
      · simp only [Guard.bind_eq_ok, Except.ok.injEq] at chosen
        obtain ⟨coin, spendable, ⟨others, _⟩, later, same⟩ := chosen
        cases same
        intro other member
        cases List.mem_cons.mp member with
        | inl here => exact ⟨first, List.mem_cons_self, here ▸ (toSpendable_commit spendable).symm⟩
        | inr there =>
            obtain ⟨output, outputMember, commit⟩ := ih later other there
            exact ⟨output, List.mem_cons_of_mem _ outputMember, commit⟩

/-- Every selected coin is a selectable output. -/
theorem mem_selectCoinsAt {keys : WalletKeys P} {db : WalletFile}
    {target tipHeight maturity : UInt64} {coins : List (Spendable P)}
    (selected : db.selectCoinsAt keys target tipHeight maturity = .ok coins) :
    ∀ coin ∈ coins, ∃ output ∈ db.outputs, output.commit = coin.commit ∧
      db.isSelectable tipHeight maturity output := by
  simp only [selectCoinsAt, Guard.bind_eq_ok, Except.ok.injEq] at selected
  obtain ⟨⟨chosen, _⟩, choice, _, _, _, _, rfl⟩ := selected
  intro coin member
  obtain ⟨output, outputMember, commit⟩ := mem_chooseCoins choice coin member
  have available := List.mem_of_mem_take outputMember
  rw [availableCoins, (List.perm_insertionSort _ _).mem_iff, List.mem_filter] at available
  exact ⟨output, available.1, commit, available.2⟩

/-- Every coin of a payment from given commitments is a named, unspent output that no
pending send claims. -/
theorem mem_coinsFrom {keys : WalletKeys P} {db : WalletFile} {commits : List Text}
    {tipHeight maturity total reached : UInt64} {outputs : List OwnedOutput}
    {coins : List (Spendable P)}
    (taken : db.coinsFrom keys commits tipHeight maturity total outputs = .ok (coins, reached)) :
    ∀ coin ∈ coins, ∃ output ∈ outputs, output.commit = coin.commit ∧ output.spent = false ∧
      output.commit ∉ db.pendingInputCommits ∧ output.commit.toHex ∈ commits := by
  induction outputs generalizing total coins with
  | nil =>
      cases taken
      simp
  | cons first rest ih =>
      unfold coinsFrom at taken
      split at taken
      · intro coin member
        obtain ⟨output, outputMember, named⟩ := ih taken coin member
        exact ⟨output, List.mem_cons_of_mem _ outputMember, named⟩
      · next free =>
          simp only [not_or, not_not, Bool.not_eq_true] at free
          simp only [Guard.bind_eq_ok, Except.ok.injEq] at taken
          obtain ⟨_, _, coin, spendable, ⟨others, _⟩, later, same⟩ := taken
          cases same
          intro other member
          cases List.mem_cons.mp member with
          | inl here =>
              exact ⟨first, List.mem_cons_self, here ▸ (toSpendable_commit spendable).symm, free⟩
          | inr there =>
              obtain ⟨output, outputMember, named⟩ := ih later other there
              exact ⟨output, List.mem_cons_of_mem _ outputMember, named⟩

end WalletFile

namespace WalletOp

/-- The operation is a payment and builds this transaction. -/
def Builds (C : TransferCrypto P) (wallet : Wallet P) : WalletOp P → Transaction → Prop
  | .pay draws recipient amount fee memo tipHeight maturity _, tx =>
      wallet.createPaymentAt C draws recipient amount fee memo tipHeight maturity = .ok tx
  | .payFrom draws commits recipient amount fee memo tipHeight maturity _, tx =>
      wallet.createPaymentFromCommitsAt C draws commits recipient amount fee memo tipHeight
        maturity = .ok tx
  | _, _ => False

/-- Does the payment look at this output? -/
def mayChoose (db : WalletFile) : WalletOp P → OwnedOutput → Prop
  | .pay _ _ _ _ _ tipHeight maturity _, output => db.isSelectable tipHeight maturity output
  | .payFrom _ commits _ _ _ _ _ _ _, output =>
      output.spent = false ∧ output.commit ∉ db.pendingInputCommits ∧
        output.commit.toHex ∈ commits
  | _, _ => False

instance (db : WalletFile) (op : WalletOp P) (output : OwnedOutput) :
    Decidable (op.mayChoose db output) := by
  cases op <;> unfold mayChoose <;> infer_instance

variable {C : TransferCrypto P} {wallet : Wallet P}

theorem not_pending_of_mayChoose {db : WalletFile} {op : WalletOp P} {output : OwnedOutput}
    (chooses : op.mayChoose db output) : output.commit ∉ db.pendingInputCommits := by
  cases op with
  | pay draws recipient amount fee memo tipHeight maturity timestamp =>
      simp only [mayChoose, WalletFile.isSelectable, Bool.and_eq_true, Bool.not_eq_true',
        List.contains_eq_mem, decide_eq_false_iff_not] at chooses
      exact chooses.1.1.2
  | payFrom draws commits recipient amount fee memo tipHeight maturity timestamp =>
      exact chooses.2.1
  | _ => exact chooses.elim

theorem mem_buildPayment {draws : TransferDraws P} {coins : List (Spendable P)}
    {recipient : Address} {amount fee : UInt64} {memo : Text} {tipHeight : UInt64}
    {tx : Transaction}
    (built : wallet.buildPayment C draws coins recipient amount fee memo tipHeight = .ok tx)
    {commit : Commitment} (input : commit ∈ tx.inputs.map Input.commit) :
    ∃ coin ∈ coins, coin.commit = commit := by
  rw [Wallet.buildPayment, Guard.mapError_eq_ok] at built
  rw [buildTransferWith_inputs built] at input
  exact List.mem_map.mp input

/-- A payment spends only outputs that it looked at. -/
theorem mem_inputs_of_builds {op : WalletOp P} {tx : Transaction}
    (built : op.Builds C wallet tx) {commit : Commitment}
    (input : commit ∈ tx.inputs.map Input.commit) :
    ∃ output ∈ wallet.db.outputs, output.commit = commit ∧ op.mayChoose wallet.db output := by
  cases op with
  | pay draws recipient amount fee memo tipHeight maturity timestamp =>
      simp only [Builds, Wallet.createPaymentAt, Guard.bind_eq_ok, Guard.mapError_eq_ok] at built
      obtain ⟨target, _, coins, selected, built⟩ := built
      obtain ⟨coin, coinMember, rfl⟩ := mem_buildPayment built input
      exact WalletFile.mem_selectCoinsAt selected coin coinMember
  | payFrom draws commits recipient amount fee memo tipHeight maturity timestamp =>
      simp only [Builds, Wallet.createPaymentFromCommitsAt, Guard.bind_eq_ok,
        Guard.mapError_eq_ok] at built
      obtain ⟨⟨coins, total⟩, taken, _, _, _, _, built⟩ := built
      obtain ⟨coin, coinMember, rfl⟩ := mem_buildPayment built input
      exact WalletFile.mem_coinsFrom taken coin coinMember
  | _ => exact built.elim

/-- The operation lists a transaction that it did not build. -/
def isRecordSend : WalletOp P → Bool
  | .recordSend .. => true
  | _ => false

/-- No output that the payment looks at is an input of a settled send. -/
def SparesSettled (db : WalletFile) (op : WalletOp P) : Prop :=
  ∀ output ∈ db.outputs, op.mayChoose db output →
    ∀ entry ∈ db.history, entry.isSettledSend → output.commit ∉ entry.spentCommits

instance (db : WalletFile) (op : WalletOp P) : Decidable (op.SparesSettled db) :=
  inferInstanceAs (Decidable (∀ output ∈ db.outputs, _))

/-- Such a payment spends no input of a live send. -/
theorem SparesSettled.disjoint {op : WalletOp P} (spares : op.SparesSettled wallet.db)
    {tx : Transaction} (built : op.Builds C wallet tx) :
    ∀ inputs ∈ wallet.db.claims, List.Disjoint (tx.inputs.map Input.commit) inputs := by
  intro inputs claimed commit spent input
  obtain ⟨entry, member, live, rfl⟩ := WalletFile.mem_claims.mp claimed
  obtain ⟨output, outputMember, rfl, chooses⟩ := mem_inputs_of_builds built spent
  by_cases pending : entry.height = none
  · exact not_pending_of_mayChoose chooses (WalletFile.mem_pendingInputCommits.mpr
      ⟨entry, member, HistoryEntry.isPendingSend_iff.mpr ⟨live, pending⟩, input⟩)
  · exact spares output outputMember chooses entry member
      (HistoryEntry.isSettledSend_iff.mpr ⟨live, pending⟩) input

end WalletOp

namespace Wallet

variable {S : Sealing} {C : TransferCrypto P} {wallet : Wallet P}

/-! ## One step -/

/-- What a step does to the inputs of pending sends: a release resets none of their flags
and no payment looks at them afterwards, and a payment spends none of them. -/
structure KeepsPromises (C : TransferCrypto P) (before after : Wallet P) (op : WalletOp P) :
    Prop where
  released : ∀ txids unspend, op = .releaseSends txids unspend →
    ∀ output ∈ after.db.outputs, output.commit ∈ after.db.pendingInputCommits →
      (output.spent = false → output ∈ before.db.outputs) ∧
        ∀ next : WalletOp P, ¬next.mayChoose after.db output
  spent : ∀ tx, op.Builds C before tx →
    ∀ input ∈ tx.inputs, input.commit ∉ before.db.pendingInputCommits

/-- Every step keeps the promises. -/
theorem keepsPromises (wallet : Wallet P) (op : WalletOp P) :
    KeepsPromises C wallet (wallet.step S C op) op := by
  constructor
  · rintro txids unspend rfl output member pending
    refine ⟨fun unspent => ?_, fun next chooses =>
      WalletOp.not_pending_of_mayChoose chooses pending⟩
    cases wallet.releaseSends_db txids unspend with
    | inl same => exact same ▸ member
    | inr released =>
        simp only [step, released] at member pending
        simp only [WalletFile.releaseSends] at member pending
        split at member
        · exact member
        · next some =>
            rw [if_neg some] at pending
            obtain ⟨before, beforeMember, rfl⟩ := List.mem_map.mp member
            split at pending
            · next freed => exact absurd pending freed.2
            · next kept =>
                rw [if_neg kept]
                exact beforeMember
  · intro tx built input member
    obtain ⟨output, _, commit, chooses⟩ :=
      WalletOp.mem_inputs_of_builds built (List.mem_map_of_mem member)
    exact commit ▸ WalletOp.not_pending_of_mayChoose chooses

theorem recordBuilt_claims {built : Except PaymentError Transaction} {amount : UInt64}
    {memo : Text} {timestamp : UInt64} (apart : wallet.db.claims.Pairwise List.Disjoint)
    (fresh : ∀ tx, built = .ok tx →
      ∀ inputs ∈ wallet.db.claims, List.Disjoint (tx.inputs.map Input.commit) inputs) :
    (wallet.recordBuilt built amount memo timestamp).db.claims.Pairwise List.Disjoint := by
  cases wallet.recordBuilt_db built amount memo timestamp with
  | inl same => exact same.2 ▸ apart
  | inr recorded =>
      obtain ⟨tx, ok, recorded⟩ := recorded
      rw [recorded]
      cases WalletFile.claims_recordSendAt tx amount memo timestamp wallet.db with
      | inl same => exact same ▸ apart
      | inr claimed => exact claimed ▸ List.pairwise_cons.mpr ⟨fresh tx ok, apart⟩

/-- A step that spares the inputs of settled sends keeps the claims of live sends
disjoint. -/
theorem claims_step (apart : wallet.db.claims.Pairwise List.Disjoint) {op : WalletOp P}
    (host : op.isRecordSend = false) (spares : op.SparesSettled wallet.db) :
    (wallet.step S C op).db.claims.Pairwise List.Disjoint := by
  cases op with
  | scanBlocks blocks =>
      cases wallet.scanBlocks_db (S := S) blocks with
      | inl same => exact same ▸ apart
      | inr scanned =>
          simp only [step, scanned]
          exact (WalletFile.pairwise_disjoint_perm
            (WalletFile.claims_scanBlocksInner _ _ _ _)).mpr apart
  | rebaseOnShorterChain blocks =>
      cases wallet.rebaseOnShorterChain_db (S := S) blocks with
      | inl same => exact same ▸ apart
      | inr scanned =>
          simp only [step, scanned]
          exact (WalletFile.pairwise_disjoint_perm
            (WalletFile.claims_scanBlocksInner _ _ _ _)).mpr apart
  | ingestScanPage page =>
      exact (WalletFile.pairwise_disjoint_perm
        (WalletFile.claims_ingestScanPage _ _ page)).mpr apart
  | ingestAnchoredScanPage page start startHash scannedHash =>
      cases wallet.ingestAnchoredScanPage_db (S := S) page start startHash scannedHash with
      | inl same => exact same ▸ apart
      | inr ingested =>
          obtain ⟨tip, ingested⟩ := ingested
          simp only [step, ingested]
          exact (WalletFile.pairwise_disjoint_perm
            (WalletFile.claims_ingestScanPage _ _ page)).mpr apart
  | beginLightRescan =>
      cases wallet.beginLightRescan_db with
      | inl same => exact same ▸ apart
      | inr rescanned =>
          simp only [step, rescanned.2]
          rw [WalletFile.claims, WalletFile.claims_rescanned]
          exact apart
  | pay draws recipient amount fee memo tipHeight maturity timestamp =>
      exact recordBuilt_claims apart fun tx built => spares.disjoint (C := C) built
  | payFrom draws commits recipient amount fee memo tipHeight maturity timestamp =>
      exact recordBuilt_claims apart fun tx built => spares.disjoint (C := C) built
  | recordSend tx amount memo timestamp => cases host
  | releaseSends txids unspend =>
      cases wallet.releaseSends_db txids unspend with
      | inl same => exact same ▸ apart
      | inr released =>
          simp only [step, released]
          exact apart.sublist (WalletFile.claims_releaseSends _ _ _)
  | reserveCommits hexes =>
      cases wallet.editOrRollBack_db (WalletFile.reserveCommits hexes) with
      | inl same => exact same ▸ apart
      | inr edited =>
          simp only [step, reserveCommits, edited]
          exact apart
  | releaseCommits hexes =>
      cases wallet.editOrRollBack_db (WalletFile.releaseCommits hexes) with
      | inl same => exact same ▸ apart
      | inr edited =>
          simp only [step, releaseCommits, edited]
          exact apart
  | quarantinePendingSends =>
      simp only [step, quarantinePendingSends, editIfChanged_db]
      exact WalletFile.claims_quarantinePendingSends wallet.db ▸ apart
  | quarantineImportedSends =>
      simp only [step, quarantineImportedSends, editIfChanged_db]
      exact WalletFile.claims_quarantineImportedSends wallet.db ▸ apart
  | exportImport => exact apart

/-- After a light rescan every live send is pending, so the coins are promised once exactly
if the claims were disjoint before. -/
theorem promisedOnce_beginLightRescan_iff (memory : wallet.storage = .memory)
    (journal : wallet.db.swapJournal = []) (reserved : wallet.db.reserved = []) :
    wallet.beginLightRescan.2.db.PromisedOnce ↔ wallet.db.claims.Pairwise List.Disjoint := by
  have rescanned : wallet.beginLightRescan.2.db =
      { wallet.db with
        outputs := []
        history := (wallet.db.history.filter fun entry => entry.direction == .sent).map
          fun entry => { entry with height := none, quarantined := true }
        scannedTo := wallet.db.birthHeight
        scannedTip := [] } := by
    simp [beginLightRescan, persist, memory, journal, reserved]
  have pending : wallet.beginLightRescan.2.db.pendingSends.map Prod.snd =
      wallet.beginLightRescan.2.db.claims := by
    rw [WalletFile.pendingSends, List.map_map, WalletFile.claims, WalletFile.claimsOf]
    congr 1
    apply List.filter_congr
    intro entry member
    rw [rescanned] at member
    obtain ⟨before, _, rfl⟩ := List.mem_map.mp member
    simp [HistoryEntry.isPendingSend, HistoryEntry.isPending, HistoryEntry.isLiveSend]
  rw [WalletFile.PromisedOnce, pending, rescanned, WalletFile.claims,
    WalletFile.claims_rescanned]

/-! ## Whole runs -/

/-- Take any wallet without a send and any operations after which every payment is recorded
as it was built.  If no payment looks at an input of a settled send, then the inputs of
any two pending sends are disjoint in every state reached.  Every step keeps the promises. -/
theorem coins_promised_once {start : Wallet P} (unused : start.db.history = [])
    {ops : List (WalletOp P)} (host : ∀ op ∈ ops, op.isRecordSend = false)
    (along : GuardedRun.Along (step S C) (fun wallet op => op.SparesSettled wallet.db)
      start ops) :
    (∀ before after, ops = before ++ after →
        (GuardedRun.run (step S C) start before).db.PromisedOnce) ∧
      ∀ before op after, ops = before ++ op :: after →
        KeepsPromises C (GuardedRun.run (step S C) start before)
          ((GuardedRun.run (step S C) start before).step S C op) op := by
  refine ⟨?_, fun before op after _ => keepsPromises _ op⟩
  rintro before after rfl
  let holds (wallet : Wallet P) : Prop := wallet.db.claims.Pairwise List.Disjoint
  have initially : holds start := by
    simp [holds, WalletFile.claims, WalletFile.claimsOf, unused]
  have preserved : ∀ wallet op, holds wallet →
      op.isRecordSend = false ∧ op.SparesSettled wallet.db → holds (wallet.step S C op) :=
    fun _ _ apart admissible => claims_step apart admissible.1 admissible.2
  have listed : GuardedRun.Along (step S C) (fun _ op => op.isRecordSend = false) start before :=
    .of_forall_mem start fun op member => host op (List.mem_append_left after member)
  exact WalletFile.PromisedOnce.of_claims
    ((listed.and along.append.1).invariant initially preserved)

end Wallet

namespace Sample

def otherDraws : TransferDraws primitives where
  ephemeral index := (index + 7 : Nat)
  entropy index := BitVec.ofNat 256 (index + 9)
  kernelOffset := (5 : ZMod order)
  stealthOffset := (6 : ZMod order)

/-- Scan a block, pay out of its subsidy and withhold the payment. -/
def promiseOps : List (WalletOp primitives) :=
  [.scanBlocks [ownedBlock0], .pay draws keys.address 200 1 [] 1000 100 5,
    .reserveCommits [], .quarantinePendingSends]

/-- A wallet that begins at the second block pays with a coin of the first one, settles the
payment during a light rescan, sees the coin again and pays with it once more. -/
def twiceOps : List (WalletOp primitives) :=
  [.scanBlocks [paidBlock0],
    .payFrom draws [zeroValued.toHex] keys.address 0 0 [] 1000 100 5,
    .beginLightRescan,
    .scanBlocks [paidBlock1],
    .scanBlocks [paidBlock0],
    .payFrom otherDraws [zeroValued.toHex] keys.address 0 0 [] 1000 100 6,
    .beginLightRescan]

def twice : Wallet primitives :=
  GuardedRun.run (Wallet.step sealing crypto) (Wallet.inMemory .devnet keys 1) twiceOps

end Sample

open Sample in
/-- A payment, a release of nothing and a quarantine leave the promised coins apart. -/
theorem Wallet.coins_promised_once_payment :
    (GuardedRun.run (Wallet.step sealing crypto) Sample.wallet promiseOps).db.PromisedOnce := by
  have host : ∀ op ∈ promiseOps, op.isRecordSend = false := by
    intro op member
    fin_cases member <;> rfl
  have along : GuardedRun.Along (Wallet.step sealing crypto)
      (fun wallet op => op.SparesSettled wallet.db) Sample.wallet promiseOps := by
    decide +kernel
  exact (Wallet.coins_promised_once rfl host along).1 promiseOps [] (List.append_nil _).symm

/-! ## A coin promised twice -/

namespace WalletFile

/-- The coins of a payment from given commitments depend on the history by the pending
sends only. -/
theorem coinsFrom_congr {keys : WalletKeys P} {db other : WalletFile}
    (pending : db.pendingInputCommits = other.pendingInputCommits) (commits : List Text)
    (tipHeight maturity total : UInt64) (outputs : List OwnedOutput) :
    db.coinsFrom keys commits tipHeight maturity total outputs =
      other.coinsFrom keys commits tipHeight maturity total outputs := by
  induction outputs generalizing total with
  | nil => rfl
  | cons first rest ih => simp only [coinsFrom, pending, ih]

end WalletFile

theorem Wallet.createPaymentFromCommitsAt_congr {C : TransferCrypto P} {draws : TransferDraws P}
    {wallet other : Wallet P} {commits : List Text} {recipient : Address} {amount fee : UInt64}
    {memo : Text} {tipHeight maturity : UInt64} (keys : wallet.keys = other.keys)
    (network : wallet.network = other.network) (outputs : wallet.db.outputs = other.db.outputs)
    (pending : wallet.db.pendingInputCommits = other.db.pendingInputCommits) :
    wallet.createPaymentFromCommitsAt C draws commits recipient amount fee memo tipHeight
        maturity =
      other.createPaymentFromCommitsAt C draws commits recipient amount fee memo tipHeight
        maturity := by
  rw [createPaymentFromCommitsAt, createPaymentFromCommitsAt, keys, outputs,
    WalletFile.coinsFrom_congr pending]
  simp only [buildPayment, buildRules, keys, network]

theorem Wallet.recordBuilt_ok (wallet : Wallet P) (tx : Transaction) (amount : UInt64)
    (memo : Text) (timestamp : UInt64) : wallet.recordBuilt (.ok tx) amount memo timestamp =
      { wallet with db := WalletFile.recordSendAt P tx amount memo timestamp wallet.db } := rfl

namespace Sample

/-- A send of the coin, as far as the scans read it. -/
structure SpendsCoin (entry : HistoryEntry) : Prop where
  sent : entry.direction = .sent
  live : entry.failed = false
  inputs : entry.spentCommits = [zeroValued]

/-- The state after a light rescan began: only the send is left. -/
def rescanned (entry : HistoryEntry) : WalletFile where
  outputs := []
  scannedTo := 1
  history := [{ entry with height := none, quarantined := true }]
  birthHeight := 1
  reserved := []
  scannedTip := []
  swapJournal := []

/-- The second block settles the send. -/
def settled (entry : HistoryEntry) : WalletFile where
  outputs := []
  scannedTo := 1
  history := [{ entry with
    height := some 1
    timestamp := paidBlock1.header.timestampUnix
    quarantined := true }]
  birthHeight := 1
  reserved := []
  scannedTip := (paidBlock1.hash primitives).toHex
  swapJournal := []

variable {entry : HistoryEntry}

theorem scan_rescanned (spends : SpendsCoin entry) :
    ((⟨keys, .devnet, rescanned entry, .memory⟩ : Wallet primitives).scanBlocks sealing
      [paidBlock1]).2.db = settled entry := by
  have facts : paidBlock1.height = 1 ∧ paidBlock1.body.inputCommits = [zeroValued] ∧
      (WalletFile.discovered (keys.viewKey.scanner sealing) [] paidBlock1).length = 0 := by
    decide +kernel
  obtain ⟨height, inputs, nothing⟩ := facts
  have found := List.length_eq_zero_iff.mp nothing
  have covers : WalletFile.coversCanonicalHistory [paidBlock1] 1 1 [] = true := by decide +kernel
  have accepted : (rescanned entry).checkChainContinuity primitives [paidBlock1] = .ok () := by
    simp [WalletFile.checkChainContinuity, rescanned, covers]
  have unfolded : ((⟨keys, .devnet, rescanned entry, .memory⟩ : Wallet primitives).scanBlocks
      sealing [paidBlock1]).2.db = ((rescanned entry).scanBlocksInner
        (keys.viewKey.scanner sealing) [paidBlock1] false).1 := by
    rw [Wallet.scanBlocks, accepted]
    rfl
  obtain ⟨sent, live, spent⟩ := spends
  have highest : max (max (1 : UInt64) 1) 1 = 1 := by decide
  rw [unfolded]
  simp [highest, List.filter_cons, WalletFile.scanBlocksInner, WalletFile.passOver, WalletFile.passBlock,
    WalletFile.startPass, rescanned, settled, WalletFile.scanFrom, WalletFile.settle,
    WalletFile.pendingSends, HistoryEntry.isPendingSend, HistoryEntry.isPending, sent, live, spent,
    WalletFile.known, inputs, height, WalletFile.ownedOf, found, WalletFile.incomingOf,
    WalletFile.settleAgainst, covers, WalletFile.markSpent, WalletFile.reconcileWith,
    WalletFile.keepsEntry, WalletFile.unconfirm, WalletFile.confirmAll, WalletFile.confirmFirst,
    WalletFile.appendNew, WalletFile.sortHistory, WalletFile.anchorAt]

theorem scanBlocks_wallet (wallet : Wallet primitives) (blocks : List Block) :
    (wallet.scanBlocks sealing blocks).2 =
      { wallet with db := (wallet.scanBlocks sealing blocks).2.db } := by
  rw [Wallet.scanBlocks]
  split <;> rfl

/-- The wallet after it found the coin. -/
def funded : Wallet primitives where
  keys := keys
  network := .devnet
  db := ((Wallet.inMemory .devnet keys 1).scanBlocks sealing [paidBlock0]).2.db
  storage := .memory

/-- The first block shows the coin again, unspent, and no send is pending. -/
theorem scan_settled (spends : SpendsCoin entry) {rescan : WalletFile}
    (scanned : ((⟨keys, .devnet, settled entry, .memory⟩ : Wallet primitives).scanBlocks sealing
      [paidBlock0]).2.db = rescan) :
    rescan.outputs = funded.db.outputs ∧ rescan.pendingInputCommits = [] ∧
      rescan.claims.Perm [[zeroValued]] ∧ (rescan.swapJournal = [] ∧ rescan.reserved = []) ∧
      ∀ txid, txid ≠ entry.txid → txid ≠ zeroValued.toHex →
        ∀ recorded ∈ rescan.history, recorded.txid ≠ txid := by
  have facts : paidBlock0.height = 0 ∧ paidBlock0.body.inputCommits = [] ∧
      (WalletFile.incomingOf (keys.viewKey.scanner sealing) [] paidBlock0).map
        (fun receipt => (receipt.direction, receipt.height, receipt.txid)) =
          [(.received, some 0, zeroValued.toHex)] ∧
      WalletFile.ownedOf (keys.viewKey.scanner sealing) [] paidBlock0 = funded.db.outputs := by
    decide +kernel
  obtain ⟨height, inputs, receipts, owned⟩ := facts
  have accepted : (settled entry).checkChainContinuity primitives [paidBlock0] = .ok () := by
    have tip := Bytes32.toHex_ne_nil (paidBlock1.hash primitives)
    simp [WalletFile.checkChainContinuity, settled, tip, height]
  have unfolded : ((⟨keys, .devnet, settled entry, .memory⟩ : Wallet primitives).scanBlocks
      sealing [paidBlock0]).2.db = ((settled entry).scanBlocksInner
        (keys.viewKey.scanner sealing) [paidBlock0] false).1 := by
    rw [Wallet.scanBlocks, accepted]
    rfl
  have covers (outputs : List OwnedOutput) :
      WalletFile.coversCanonicalHistory [paidBlock0] 1 1 outputs = false := by
    simp [WalletFile.coversCanonicalHistory, height]
  rw [unfolded] at scanned
  subst scanned
  obtain ⟨receipt, isReceipt, fields⟩ := List.map_eq_singleton_iff.mp receipts
  obtain ⟨received, confirmed, named⟩ : receipt.direction = .received ∧
      receipt.height = some 0 ∧ receipt.txid = zeroValued.toHex := by simpa using fields
  obtain ⟨sent, live, spent⟩ := spends
  have notReconciled : (settled entry).reconciles (keys.viewKey.scanner sealing) [paidBlock0]
      false = false := by
    simp [WalletFile.reconciles, settled, covers]
  have history : ((settled entry).scanBlocksInner (keys.viewKey.scanner sealing) [paidBlock0]
      false).1.history.Perm ((settled entry).history ++ [receipt]) := by
    rw [WalletFile.scanBlocksInner_history]
    refine (List.perm_insertionSort _ _).trans ?_
    have pending : (settled entry).confirmations [paidBlock0] = [] := by
      simp [WalletFile.confirmations, WalletFile.confirmationsFrom, settled,
        WalletFile.pendingSends, HistoryEntry.isPendingSend, HistoryEntry.isPending,
        WalletFile.settle]
    have known : (settled entry).known = [] := rfl
    rw [WalletFile.settledHistory, notReconciled, pending, known, List.flatMap_singleton, isReceipt]
    simp [WalletFile.confirmAll, WalletFile.appendNew, settled, WalletFile.sameIncoming, sent,
      received]
  refine ⟨?_, ?_, ?_, ?_, ?_⟩
  · have nothing : WalletFile.markSpent [] (WalletFile.ownedOf (keys.viewKey.scanner sealing) []
        paidBlock0) = WalletFile.ownedOf (keys.viewKey.scanner sealing) [] paidBlock0 := by
      simp [WalletFile.markSpent]
    rw [WalletFile.scanBlocksInner_outputs, notReconciled, ← owned, ← nothing]
    simp [WalletFile.mergedOutputs, settled, WalletFile.known, Block.consumed, inputs]
  · refine List.eq_nil_iff_forall_not_mem.mpr fun commit member => ?_
    obtain ⟨recorded, inside, pending, _⟩ := WalletFile.mem_pendingInputCommits.mp member
    rw [history.mem_iff] at inside
    have unconfirmed := (HistoryEntry.isPendingSend_iff.mp pending).2
    rcases List.mem_append.mp inside with inside | inside
    · obtain rfl := List.mem_singleton.mp inside
      simp at unconfirmed
    · obtain rfl := List.mem_singleton.mp inside
      simp [confirmed] at unconfirmed
  · refine (WalletFile.claimsOf_perm history).trans ?_
    simp [WalletFile.claimsOf, settled, HistoryEntry.isLiveSend, sent, live, spent, received]
  · rw [WalletFile.scanBlocksInner_swapJournal, WalletFile.scanBlocksInner_reserved]
    exact ⟨rfl, rfl⟩
  · intro txid other fresh recorded member
    rw [history.mem_iff] at member
    rcases List.mem_append.mp member with inside | inside
    · obtain rfl := List.mem_singleton.mp inside
      exact other.symm
    · obtain rfl := List.mem_singleton.mp inside
      rw [named]
      exact fresh.symm

/-- A payment of nothing with the coin. -/
def spendCoin (draws : TransferDraws primitives) (wallet : Wallet primitives) :
    Except Wallet.PaymentError Transaction :=
  wallet.createPaymentFromCommitsAt crypto draws [zeroValued.toHex] keys.address 0 0 [] 1000 100

theorem step_spendCoin (wallet : Wallet primitives) (draws : TransferDraws primitives)
    (timestamp : UInt64) :
    wallet.step sealing crypto
        (.payFrom draws [zeroValued.toHex] keys.address 0 0 [] 1000 100 timestamp) =
      wallet.recordBuilt (spendCoin draws wallet) 0 [] timestamp := rfl

theorem spendCoin_congr {db : WalletFile} (outputs : db.outputs = funded.db.outputs)
    (pending : db.pendingInputCommits = []) (draws : TransferDraws primitives) :
    spendCoin draws ⟨keys, .devnet, db, .memory⟩ = spendCoin draws funded := by
  have quiet : funded.db.pendingInputCommits = [] := by decide +kernel
  exact Wallet.createPaymentFromCommitsAt_congr rfl rfl outputs (pending.trans quiet.symm)

/-- Both payments are built, spend the coin and have ids of their own. -/
theorem spendCoin_funded : ∃ first second,
    spendCoin draws funded = .ok first ∧ spendCoin otherDraws funded = .ok second ∧
      first.inputs.map Input.commit = [zeroValued] ∧
      second.inputs.map Input.commit = [zeroValued] ∧
      (second.txid primitives).toHex ≠ (first.txid primitives).toHex ∧
      (first.txid primitives).toHex ≠ zeroValued.toHex ∧
      (second.txid primitives).toHex ≠ zeroValued.toHex := by
  have built : (spendCoin draws funded).isOk = true ∧ (spendCoin otherDraws funded).isOk = true := by
    decide +kernel
  have inputs : ((spendCoin draws funded).toOption.map (·.inputs.map Input.commit)) =
        some [zeroValued] ∧
      ((spendCoin otherDraws funded).toOption.map (·.inputs.map Input.commit)) =
        some [zeroValued] := by
    decide +kernel
  have ids : ((spendCoin otherDraws funded).toOption.map (·.txid primitives)) ≠
        ((spendCoin draws funded).toOption.map (·.txid primitives)) ∧
      ((spendCoin draws funded).toOption.map (·.txid primitives)) ≠ some zeroValued ∧
      ((spendCoin otherDraws funded).toOption.map (·.txid primitives)) ≠ some zeroValued := by
    decide +kernel
  obtain ⟨firstBuilt, secondBuilt⟩ := built
  cases firstTx : spendCoin draws funded with
  | error error =>
      rw [firstTx] at firstBuilt
      exact absurd firstBuilt Bool.false_ne_true
  | ok first =>
      cases secondTx : spendCoin otherDraws funded with
      | error error =>
          rw [secondTx] at secondBuilt
          exact absurd secondBuilt Bool.false_ne_true
      | ok second =>
          rw [firstTx, secondTx] at inputs ids
          refine ⟨first, second, rfl, rfl, Option.some.inj inputs.1, Option.some.inj inputs.2,
            fun same => ids.1 ?_, fun same => ids.2.1 ?_, fun same => ids.2.2 ?_⟩
          · exact congrArg some (Bytes32.toHex_injective same)
          · exact congrArg some (Bytes32.toHex_injective same)
          · exact congrArg some (Bytes32.toHex_injective same)

/-- The send that recording the transaction lists. -/
def sendOf (tx : Transaction) : HistoryEntry where
  direction := .sent
  amount := 0
  fee := tx.totalFee
  memo := []
  height := none
  txid := (tx.txid primitives).toHex
  timestamp := 5
  spentCommits := tx.inputs.map Input.commit
  raw := some tx
  quarantined := false
  failed := false

/-- The recorded payment is all that a light rescan keeps. -/
theorem rescan_paid {tx : Transaction} (fresh : (tx.txid primitives).toHex ≠ zeroValued.toHex) :
    (⟨keys, .devnet, WalletFile.recordSendAt primitives tx 0 [] 5 funded.db, .memory⟩ :
      Wallet primitives).step sealing crypto .beginLightRescan =
      ⟨keys, .devnet, rescanned (sendOf tx), .memory⟩ := by
  have facts : funded.db.history.map (fun receipt => (receipt.txid, receipt.direction)) =
        [(zeroValued.toHex, .received)] ∧ funded.db.swapJournal = [] ∧ funded.db.reserved = [] ∧
      funded.db.birthHeight = 1 := by
    decide +kernel
  obtain ⟨receipts, journal, reserved, birth⟩ := facts
  obtain ⟨receipt, history, fields⟩ := List.map_eq_singleton_iff.mp receipts
  obtain ⟨named, received⟩ : receipt.txid = zeroValued.toHex ∧ receipt.direction = .received := by
    simpa using fields
  simp [Wallet.step, Wallet.beginLightRescan, Wallet.persist, WalletFile.recordSendAt, journal, reserved, birth,
    history, named, received, fresh.symm, rescanned, sendOf]

/-- The second payment claims the coin of the first one again. -/
theorem coin_promised_twice : ¬twice.db.PromisedOnce := by
  obtain ⟨first, second, firstTx, secondTx, firstInputs, secondInputs, other, firstFresh, fresh⟩ :=
    spendCoin_funded
  have spends : SpendsCoin (sendOf first) := ⟨rfl, rfl, firstInputs⟩
  have found : (Wallet.inMemory .devnet keys 1).step sealing crypto (.scanBlocks [paidBlock0]) =
      funded := scanBlocks_wallet _ _
  have paid : funded.step sealing crypto
      (.payFrom draws [zeroValued.toHex] keys.address 0 0 [] 1000 100 5) =
      ⟨keys, .devnet, WalletFile.recordSendAt primitives first 0 [] 5 funded.db, .memory⟩ := by
    rw [step_spendCoin, firstTx, Wallet.recordBuilt_ok]
    rfl
  have confirmed : (⟨keys, .devnet, rescanned (sendOf first), .memory⟩ : Wallet primitives).step
      sealing crypto (.scanBlocks [paidBlock1]) =
      ⟨keys, .devnet, settled (sendOf first), .memory⟩ := by
    change (Wallet.scanBlocks sealing _ _).2 = _
    rw [scanBlocks_wallet, scan_rescanned spends]
  obtain ⟨rescan, shape⟩ : ∃ db, ((⟨keys, .devnet, settled (sendOf first), .memory⟩ :
      Wallet primitives).scanBlocks sealing [paidBlock0]).2.db = db := ⟨_, rfl⟩
  have shown : (⟨keys, .devnet, settled (sendOf first), .memory⟩ : Wallet primitives).step
      sealing crypto (.scanBlocks [paidBlock0]) = ⟨keys, .devnet, rescan, .memory⟩ := by
    change (Wallet.scanBlocks sealing _ _).2 = _
    rw [scanBlocks_wallet, shape]
  obtain ⟨outputs, pending, claims, free, ids⟩ := scan_settled spends shape
  have again : (⟨keys, .devnet, rescan, .memory⟩ : Wallet primitives).step sealing crypto
      (.payFrom otherDraws [zeroValued.toHex] keys.address 0 0 [] 1000 100 6) =
      ⟨keys, .devnet, WalletFile.recordSendAt primitives second 0 [] 6 rescan, .memory⟩ := by
    rw [step_spendCoin, spendCoin_congr outputs pending, secondTx, Wallet.recordBuilt_ok]
  have last : twice = (Wallet.beginLightRescan ⟨keys, .devnet,
      WalletFile.recordSendAt primitives second 0 [] 6 rescan, .memory⟩).2 := by
    simp only [twice, twiceOps, GuardedRun.run_cons, GuardedRun.run_nil, found, paid]
    rw [rescan_paid firstFresh, confirmed, shown, again]
    rfl
  have listed : (WalletFile.recordSendAt primitives second 0 [] 6 rescan).claims =
      [zeroValued] :: rescan.claims := by
    have unknown : (rescan.history.any fun recorded =>
        recorded.txid == (second.txid primitives).toHex) = false := by
      simpa using ids _ other fresh
    simp [WalletFile.claims, WalletFile.claimsOf, WalletFile.recordSendAt, unknown,
      HistoryEntry.isLiveSend, secondInputs]
  rw [last, Wallet.promisedOnce_beginLightRescan_iff rfl free.1 free.2, listed,
    List.pairwise_cons]
  rintro ⟨apart, _⟩
  exact apart [zeroValued] (claims.mem_iff.mpr List.mem_cons_self) List.mem_cons_self
    List.mem_cons_self

end Sample

end Nightfall
