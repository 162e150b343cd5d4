import Nightfall.Library.GuardedRun
import Nightfall.Wallet.Pass
import Nightfall.Wallet.Payment

/-!
# Runs of a wallet

Everything that a host can do to an open wallet, one operation after the other, and what
every operation preserves of the activity list.
-/

namespace Nightfall

/-- An operation on a wallet.  The payments carry the transaction's random draws. -/
inductive WalletOp (P : Primitives) where
  | scanBlocks (blocks : List Block)
  | rebaseOnShorterChain (blocks : List Block)
  | ingestScanPage (page : ScanPage)
  | ingestAnchoredScanPage (page : ScanPage) (start : UInt64) (startHash scannedHash : Text)
  | beginLightRescan
  | pay (draws : TransferDraws P) (recipient : Address) (amount fee : UInt64) (memo : Text)
      (tipHeight maturity timestamp : UInt64)
  | payFrom (draws : TransferDraws P) (commits : List Text) (recipient : Address)
      (amount fee : UInt64) (memo : Text) (tipHeight maturity timestamp : UInt64)
  | recordSend (tx : Transaction) (amount : UInt64) (memo : Text) (timestamp : UInt64)
  | releaseSends (txids : List Text) (unspend : List Commitment)
  | reserveCommits (hexes : List Text)
  | releaseCommits (hexes : List Text)
  | quarantinePendingSends
  | quarantineImportedSends
  | exportImport

variable {P : Primitives}

namespace Wallet

/-- Record a payment as soon as it is built. -/
def recordBuilt (wallet : Wallet P) (built : Except PaymentError Transaction)
    (amount : UInt64) (memo : Text) (timestamp : UInt64) : Wallet P :=
  match built with
  | .ok tx => (wallet.recordSendAt tx amount memo timestamp).2
  | .error _ => wallet

/-- The wallet that an operation leaves behind. -/
def step (S : Sealing) (C : TransferCrypto P) (wallet : Wallet P) : WalletOp P → Wallet P
  | .scanBlocks blocks => (wallet.scanBlocks S blocks).2
  | .rebaseOnShorterChain blocks => (wallet.rebaseOnShorterChain S blocks).2
  | .ingestScanPage page => (wallet.ingestScanPage S page).2
  | .ingestAnchoredScanPage page start startHash scannedHash =>
      (wallet.ingestAnchoredScanPage S page start startHash scannedHash).2
  | .beginLightRescan => wallet.beginLightRescan.2
  | .pay draws recipient amount fee memo tipHeight maturity timestamp =>
      wallet.recordBuilt
        (wallet.createPaymentAt C draws recipient amount fee memo tipHeight maturity)
        amount memo timestamp
  | .payFrom draws commits recipient amount fee memo tipHeight maturity timestamp =>
      wallet.recordBuilt
        (wallet.createPaymentFromCommitsAt C draws commits recipient amount fee memo tipHeight
          maturity)
        amount memo timestamp
  | .recordSend tx amount memo timestamp => (wallet.recordSendAt tx amount memo timestamp).2
  | .releaseSends txids unspend => (wallet.releaseSends txids unspend).2
  | .reserveCommits hexes => (wallet.reserveCommits hexes).2
  | .releaseCommits hexes => (wallet.releaseCommits hexes).2
  | .quarantinePendingSends => wallet.quarantinePendingSends.2
  | .quarantineImportedSends => wallet.quarantineImportedSends.2
  -- The exported state comes back without a file.
  | .exportImport => { wallet with storage := .memory }

end Wallet

/-! ## The activity list -/

namespace WalletFile

/-- No two sends share an id, and only sends are unconfirmed. -/
structure HistoryOk (history : List HistoryEntry) : Prop where
  distinct : ((history.filter fun entry => entry.direction = .sent).map
    HistoryEntry.txid).Nodup
  unconfirmed : ∀ entry ∈ history, entry.height = none → entry.direction = .sent

namespace HistoryOk

theorem nil : HistoryOk [] :=
  ⟨by simp, by simp⟩

theorem perm {history permuted : List HistoryEntry} (ok : HistoryOk history)
    (same : history.Perm permuted) : HistoryOk permuted where
  distinct := ((same.filter _).map _).nodup_iff.mp ok.distinct
  unconfirmed entry member := ok.unconfirmed entry (same.mem_iff.mpr member)

theorem filter {history : List HistoryEntry} (ok : HistoryOk history)
    (keep : HistoryEntry → Bool) : HistoryOk (history.filter keep) where
  distinct :=
    ok.distinct.sublist ((List.filter_sublist.filter _).map _)
  unconfirmed entry member := ok.unconfirmed entry (List.mem_of_mem_filter member)

/-- A change of entries that keeps ids and directions, and un-confirms only sends. -/
theorem map {history : List HistoryEntry} (ok : HistoryOk history)
    {change : HistoryEntry → HistoryEntry}
    (direction : ∀ entry, (change entry).direction = entry.direction)
    (txid : ∀ entry, (change entry).txid = entry.txid)
    (height : ∀ entry ∈ history, (change entry).height = none →
      entry.height = none ∨ entry.direction = .sent) : HistoryOk (history.map change) where
  distinct := by
    have same : ((history.map change).filter fun entry => entry.direction = .sent).map
        HistoryEntry.txid =
        (history.filter fun entry => entry.direction = .sent).map HistoryEntry.txid := by
      simp [List.filter_map, Function.comp_def, direction, txid]
    rw [same]
    exact ok.distinct
  unconfirmed := by
    intro entry member unconfirmed
    obtain ⟨before, inHistory, rfl⟩ := List.mem_map.mp member
    rw [direction]
    cases height before inHistory unconfirmed with
    | inl already => exact ok.unconfirmed before inHistory already
    | inr sent => exact sent

/-- A new confirmed entry that is no send. -/
theorem concat {history : List HistoryEntry} (ok : HistoryOk history) {entry : HistoryEntry}
    (incoming : entry.direction ≠ .sent) (confirmed : entry.height ≠ none) :
    HistoryOk (history ++ [entry]) where
  distinct := by
    rw [List.filter_append, List.filter_cons_of_neg (by simpa using incoming), List.filter_nil,
      List.append_nil]
    exact ok.distinct
  unconfirmed := by
    intro other member unconfirmed
    cases List.mem_append.mp member with
    | inl before => exact ok.unconfirmed other before unconfirmed
    | inr last =>
        cases List.mem_singleton.mp last
        exact absurd unconfirmed confirmed

/-- A new send with a new id. -/
theorem cons {history : List HistoryEntry} (ok : HistoryOk history) {entry : HistoryEntry}
    (sent : entry.direction = .sent) (fresh : ∀ other ∈ history, other.txid ≠ entry.txid) :
    HistoryOk (entry :: history) where
  distinct := by
    rw [List.filter_cons_of_pos (by simpa using sent), List.map_cons, List.nodup_cons]
    refine ⟨?_, ok.distinct⟩
    intro member
    obtain ⟨other, member, same⟩ := List.mem_map.mp member
    exact fresh other (List.mem_of_mem_filter member) same
  unconfirmed := by
    intro other member unconfirmed
    cases List.mem_cons.mp member with
    | inl here => rw [here, sent]
    | inr later => exact ok.unconfirmed other later unconfirmed

end HistoryOk

/-! ### What the parts of a scan do to it -/

/-- The entry after a list of sends was confirmed: the first confirmation of an
unconfirmed entry counts. -/
def confirmEntry (confirmed : List (Text × UInt64 × UInt64)) (entry : HistoryEntry) :
    HistoryEntry :=
  if entry.height.isNone then
    match confirmed.find? fun confirmation => confirmation.1 == entry.txid with
    | some (_, height, timestamp) =>
        { entry with height := some height, timestamp := timestamp }
    | none => entry
  else entry

section ConfirmEntry

variable (confirmed : List (Text × UInt64 × UInt64)) (entry : HistoryEntry)

@[simp] theorem confirmEntry_direction :
    (confirmEntry confirmed entry).direction = entry.direction := by
  unfold confirmEntry
  split
  · split <;> rfl
  · rfl

@[simp] theorem confirmEntry_txid : (confirmEntry confirmed entry).txid = entry.txid := by
  unfold confirmEntry
  split
  · split <;> rfl
  · rfl

@[simp] theorem confirmEntry_spentCommits :
    (confirmEntry confirmed entry).spentCommits = entry.spentCommits := by
  unfold confirmEntry
  split
  · split <;> rfl
  · rfl

@[simp] theorem confirmEntry_failed :
    (confirmEntry confirmed entry).failed = entry.failed := by
  unfold confirmEntry
  split
  · split <;> rfl
  · rfl

theorem confirmEntry_height_eq_none :
    (confirmEntry confirmed entry).height = none ↔
      entry.height = none ∧ ∀ confirmation ∈ confirmed, confirmation.1 ≠ entry.txid := by
  unfold confirmEntry
  split
  · next unconfirmed =>
      rw [Option.isNone_iff_eq_none] at unconfirmed
      split
      · next height timestamp found =>
          have member := List.mem_of_find?_eq_some found
          have same := List.find?_some found
          simp only [beq_iff_eq] at same
          simp only [reduceCtorEq, false_iff, not_and, not_forall, not_not]
          exact fun _ => ⟨_, member, same⟩
      · next missing =>
          simp only [List.find?_eq_none, beq_iff_eq] at missing
          exact ⟨fun _ => ⟨unconfirmed, missing⟩, fun _ => unconfirmed⟩
  · next settled =>
      rw [Option.isNone_iff_eq_none] at settled
      simp [settled]

theorem confirmEntry_of_settled (settled : entry.height ≠ none) :
    confirmEntry confirmed entry = entry := by
  rw [confirmEntry, if_neg (by simpa using settled)]

end ConfirmEntry

/-- In a list of distinct sends, the first unconfirmed entry with an id is the only one. -/
theorem confirmFirst_eq_map {history : List HistoryEntry} (ok : HistoryOk history)
    (txid : Text) (height timestamp : UInt64) :
    confirmFirst txid height timestamp history =
      history.map (confirmEntry [(txid, height, timestamp)]) := by
  induction history with
  | nil => rfl
  | cons entry rest ih =>
      have later : HistoryOk rest := by
        refine ⟨?_, fun other member => ok.unconfirmed other (List.mem_cons_of_mem _ member)⟩
        exact ok.distinct.sublist (((List.sublist_cons_self _ _).filter _).map _)
      rw [confirmFirst, List.map_cons]
      split
      · next here =>
          obtain ⟨same, unconfirmed⟩ := here
          have unconfirmed' := Option.isNone_iff_eq_none.mp unconfirmed
          have sent := ok.unconfirmed entry List.mem_cons_self unconfirmed'
          have first : confirmEntry [(txid, height, timestamp)] entry =
              { entry with height := some height, timestamp := timestamp } := by
            simp [confirmEntry, unconfirmed', same]
          rw [first]
          congr 1
          -- No later entry is an unconfirmed send with the same id.
          rw [List.map_congr_left, List.map_id]
          intro other member
          rw [id, confirmEntry]
          split
          · next alsoUnconfirmed =>
              have otherSent := ok.unconfirmed other (List.mem_cons_of_mem _ member)
                (Option.isNone_iff_eq_none.mp alsoUnconfirmed)
              have different : other.txid ≠ txid := by
                intro collides
                have distinct := ok.distinct
                rw [List.filter_cons_of_pos (by simpa using sent), List.map_cons,
                  List.nodup_cons] at distinct
                apply distinct.1
                rw [same, ← collides]
                exact List.mem_map_of_mem (List.mem_filter.mpr ⟨member, by simpa using otherSent⟩)
              simp [Ne.symm different]
          · rfl
      · next elsewhere =>
          have unchanged : confirmEntry [(txid, height, timestamp)] entry = entry := by
            rw [confirmEntry]
            split
            · next unconfirmed =>
                have different : ¬txid = entry.txid := by
                  intro same
                  exact elsewhere ⟨same.symm, unconfirmed⟩
                simp [different]
            · rfl
          rw [unchanged, ih later]

theorem HistoryOk.confirmEntry {history : List HistoryEntry} (ok : HistoryOk history)
    (confirmed : List (Text × UInt64 × UInt64)) :
    HistoryOk (history.map (confirmEntry confirmed)) := by
  apply ok.map (confirmEntry_direction confirmed) (confirmEntry_txid confirmed)
  intro entry _ unconfirmed
  exact .inl ((confirmEntry_height_eq_none confirmed entry).mp unconfirmed).1

/-- Confirming one send after the other changes every entry on its own. -/
theorem confirmAll_eq_map {history : List HistoryEntry} (ok : HistoryOk history)
    (confirmed : List (Text × UInt64 × UInt64)) :
    confirmAll confirmed history = history.map (confirmEntry confirmed) := by
  induction confirmed generalizing history with
  | nil =>
      have unchanged : confirmEntry [] = id := by
        funext entry
        simp [confirmEntry]
      rw [unchanged, List.map_id]
      rfl
  | cons confirmation rest ih =>
      obtain ⟨txid, height, timestamp⟩ := confirmation
      have step : confirmAll ((txid, height, timestamp) :: rest) history =
          confirmAll rest (confirmFirst txid height timestamp history) := rfl
      rw [step, confirmFirst_eq_map ok, ih (ok.confirmEntry _), List.map_map]
      apply List.map_congr_left
      intro entry _
      rw [Function.comp_apply]
      by_cases unconfirmed : entry.height = none
      · cases same : txid == entry.txid with
        | true => simp [WalletFile.confirmEntry, unconfirmed, same]
        | false => simp [WalletFile.confirmEntry, unconfirmed, same]
      · rw [confirmEntry_of_settled _ _ unconfirmed, confirmEntry_of_settled _ _ unconfirmed,
          confirmEntry_of_settled _ _ unconfirmed]

/-! ### What the operations do to it -/

theorem incoming_isReceipt (found : DiscoveredOutput P) (height timestamp : UInt64)
    (isCoinbase : Bool) :
    (found.incoming height timestamp isCoinbase).direction ≠ .sent ∧
      (found.incoming height timestamp isCoinbase).height ≠ none := by
  constructor
  · cases isCoinbase <;> simp [DiscoveredOutput.incoming]
  · simp [DiscoveredOutput.incoming]

@[simp] theorem unconfirm_direction (spent : List Commitment) (entry : HistoryEntry) :
    (unconfirm spent entry).direction = entry.direction := by
  unfold unconfirm
  split <;> rfl

@[simp] theorem unconfirm_txid (spent : List Commitment) (entry : HistoryEntry) :
    (unconfirm spent entry).txid = entry.txid := by
  unfold unconfirm
  split <;> rfl

end WalletFile

/-! ### What becomes of one line -/

/-- What becomes of a line: it stays the line of the same transaction, a mark stays, and a
send that waits again is marked. -/
structure HistoryEntry.Later (before after : HistoryEntry) : Prop where
  direction : after.direction = before.direction
  txid : after.txid = before.txid
  raw : after.raw = before.raw
  inputs : after.spentCommits = before.spentCommits
  withheld : before.quarantined = true → after.quarantined = true
  waiting : after.height = none →
    before.height = none ∨ before.direction = .sent ∧ after.quarantined = true

namespace HistoryEntry.Later

theorem refl (entry : HistoryEntry) : entry.Later entry :=
  ⟨rfl, rfl, rfl, rfl, id, .inl⟩

theorem unconfirm (spent : List Commitment) (entry : HistoryEntry) :
    entry.Later (WalletFile.unconfirm spent entry) := by
  unfold WalletFile.unconfirm
  split
  · next reverted => exact ⟨rfl, rfl, rfl, rfl, fun _ => rfl, fun _ => .inr ⟨reverted.1, rfl⟩⟩
  · exact refl entry

theorem failSend (txids : List Text) (entry : HistoryEntry) :
    entry.Later (WalletFile.failSend txids entry) := by
  unfold WalletFile.failSend
  split
  · exact ⟨rfl, rfl, rfl, rfl, fun _ => rfl, .inl⟩
  · exact refl entry

theorem quarantine (entry : HistoryEntry) : entry.Later { entry with quarantined := true } :=
  ⟨rfl, rfl, rfl, rfl, fun _ => rfl, .inl⟩

theorem confirm (entry : HistoryEntry) (height timestamp : UInt64) :
    entry.Later { entry with height := some height, timestamp := timestamp } :=
  ⟨rfl, rfl, rfl, rfl, id, nofun⟩

end HistoryEntry.Later

namespace WalletFile

theorem forall₂_map_later {change : HistoryEntry → HistoryEntry} {history : List HistoryEntry}
    (later : ∀ entry ∈ history, entry.Later (change entry)) :
    List.Forall₂ HistoryEntry.Later history (history.map change) := by
  rw [List.forall₂_map_right_iff, List.forall₂_same]
  exact later

theorem forall₂_confirmFirst (txid : Text) (height timestamp : UInt64)
    (history : List HistoryEntry) :
    List.Forall₂ HistoryEntry.Later history (confirmFirst txid height timestamp history) := by
  induction history with
  | nil => exact .nil
  | cons entry rest ih =>
      rw [confirmFirst]
      split
      · exact .cons (.confirm entry height timestamp)
          (List.forall₂_same.mpr fun other _ => .refl other)
      · exact .cons (.refl entry) ih

/-- Every line has one that became of it, and the other way round. -/
theorem exists_later {history changed : List HistoryEntry}
    (later : List.Forall₂ HistoryEntry.Later history changed) :
    (∀ before ∈ history, ∃ after ∈ changed, before.Later after) ∧
      ∀ after ∈ changed, ∃ before ∈ history, before.Later after := by
  induction later with
  | nil => simp
  | cons first rest ih =>
      constructor
      · rw [List.forall_mem_cons]
        refine ⟨⟨_, List.mem_cons_self, first⟩, fun before member => ?_⟩
        obtain ⟨after, member, later⟩ := ih.1 before member
        exact ⟨after, List.mem_cons_of_mem _ member, later⟩
      · rw [List.forall_mem_cons]
        refine ⟨⟨_, List.mem_cons_self, first⟩, fun after member => ?_⟩
        obtain ⟨before, member, later⟩ := ih.2 after member
        exact ⟨before, List.mem_cons_of_mem _ member, later⟩

/-! ## Properties of the activity list that last -/

/-- A property of activity lists that no operation on a wallet takes away. -/
structure Lasting (P : Primitives) (holds : List HistoryEntry → Prop) : Prop where
  perm : ∀ {history permuted}, history.Perm permuted → holds history → holds permuted
  filter : ∀ {history} {keep : HistoryEntry → Bool},
    (∀ entry, entry.direction = .sent → keep entry = true) → holds history →
      holds (history.filter keep)
  later : ∀ {history changed}, List.Forall₂ HistoryEntry.Later history changed →
    holds history → holds changed
  discover : ∀ {history entry}, entry.direction ≠ .sent → entry.height ≠ none →
    holds history → holds (history ++ [entry])
  record : ∀ {history entry} {tx : Transaction}, entry.direction = .sent →
    entry.raw = some tx → entry.txid = (tx.txid P).toHex →
    entry.spentCommits = tx.inputs.map Input.commit →
    (∀ other ∈ history, other.txid ≠ entry.txid) → holds history → holds (entry :: history)

namespace Lasting

variable {holds : List HistoryEntry → Prop} {db : WalletFile}

theorem map (lasting : Lasting P holds) {change : HistoryEntry → HistoryEntry}
    {history : List HistoryEntry} (later : ∀ entry ∈ history, entry.Later (change entry))
    (before : holds history) : holds (history.map change) :=
  lasting.later (forall₂_map_later later) before

theorem confirmAll (lasting : Lasting P holds) {history : List HistoryEntry}
    (confirmed : List (Text × UInt64 × UInt64)) (before : holds history) :
    holds (confirmAll confirmed history) := by
  induction confirmed generalizing history with
  | nil => exact before
  | cons confirmation rest ih =>
      exact ih (lasting.later (forall₂_confirmFirst _ _ _ history) before)

theorem appendNew (lasting : Lasting P holds) (same : HistoryEntry → HistoryEntry → Bool)
    {found history : List HistoryEntry}
    (incoming : ∀ entry ∈ found, entry.direction ≠ .sent ∧ entry.height ≠ none)
    (before : holds history) : holds (appendNew same found history) := by
  induction found generalizing history with
  | nil => exact before
  | cons entry rest ih =>
      have first := incoming entry List.mem_cons_self
      have others := fun other member => incoming other (List.mem_cons_of_mem entry member)
      rw [WalletFile.appendNew, List.foldl_cons]
      split
      · exact ih others before
      · exact ih others (lasting.discover first.1 first.2 before)

theorem sortHistory (lasting : Lasting P holds) {history : List HistoryEntry}
    (before : holds history) : holds (sortHistory history) :=
  lasting.perm (List.perm_insertionSort _ _).symm before

theorem settledHistory (lasting : Lasting P holds) (scanner : Scanner P) (blocks : List Block)
    (force : Bool) (before : holds db.history) :
    holds (db.settledHistory scanner blocks force) := by
  unfold WalletFile.settledHistory
  split
  · refine lasting.map (fun entry _ => .unconfirm _ entry) (lasting.filter ?_ before)
    intro entry sent
    simp [keepsEntry, sent]
  · exact before

theorem scanBlocksInner (lasting : Lasting P holds) (scanner : Scanner P) (blocks : List Block)
    (force : Bool) (before : holds db.history) :
    holds (db.scanBlocksInner scanner blocks force).1.history := by
  rw [scanBlocksInner_history]
  refine lasting.sortHistory (lasting.appendNew _ ?_
    (lasting.confirmAll _ (lasting.settledHistory scanner blocks force before)))
  intro entry member
  obtain ⟨block, _, member⟩ := List.mem_flatMap.mp member
  obtain ⟨_, _, _, found, _, _, rfl⟩ := mem_incomingOf.mp member
  exact incoming_isReceipt found _ _ _

theorem ingestScanPage (lasting : Lasting P holds) (scanner : Scanner P) (page : ScanPage)
    (before : holds db.history) : holds (db.ingestScanPage scanner page).1.history := by
  refine lasting.sortHistory (lasting.appendNew _ ?_ (lasting.confirmAll _ before))
  intro entry member
  obtain ⟨⟨output, found⟩, _, rfl⟩ := List.mem_map.mp member
  exact incoming_isReceipt found _ _ _

theorem recordSendAt (lasting : Lasting P holds) (tx : Transaction) (amount : UInt64) (memo : Text)
    (timestamp : UInt64) (before : holds db.history) :
    holds (recordSendAt P tx amount memo timestamp db).history := by
  simp only [WalletFile.recordSendAt]
  split
  · exact before
  · next fresh =>
      refine lasting.record rfl rfl rfl rfl ?_ before
      intro other member same
      exact fresh (List.any_eq_true.mpr ⟨other, member, by simpa using same⟩)

theorem releaseSends (lasting : Lasting P holds) (txids : List Text) (unspend : List Commitment)
    (before : holds db.history) : holds (db.releaseSends txids unspend).1.history := by
  simp only [WalletFile.releaseSends]
  split
  · exact before
  · exact lasting.map (fun entry _ => .failSend txids entry) before

theorem quarantinePendingSends (lasting : Lasting P holds) (before : holds db.history) :
    holds db.quarantinePendingSends.history := by
  refine lasting.map (fun entry _ => ?_) before
  split
  · exact .quarantine entry
  · exact .refl entry

theorem quarantineImportedSends (lasting : Lasting P holds) (before : holds db.history) :
    holds db.quarantineImportedSends.history := by
  refine lasting.map (fun entry _ => ?_) before
  split
  · exact .quarantine entry
  · exact .refl entry

theorem rescanned (lasting : Lasting P holds) {history : List HistoryEntry}
    (before : holds history) :
    holds ((history.filter fun entry => entry.direction == .sent).map
      fun entry => { entry with height := none, quarantined := true }) := by
  refine lasting.map ?_ (lasting.filter ?_ before)
  · intro entry member
    have sent : entry.direction = .sent := by simpa using List.of_mem_filter member
    exact ⟨rfl, rfl, rfl, rfl, fun _ => rfl, fun _ => .inr ⟨sent, rfl⟩⟩
  · intro entry sent
    simp [sent]

end Lasting

namespace HistoryOk

/-- Distinct sends last. -/
theorem lasting : Lasting P HistoryOk where
  perm same ok := ok.perm same
  filter _ ok := ok.filter _
  later changed ok := by
    have same {history changed : List HistoryEntry}
        (later : List.Forall₂ HistoryEntry.Later history changed) :
        (changed.filter fun entry => entry.direction = .sent).map HistoryEntry.txid =
          (history.filter fun entry => entry.direction = .sent).map HistoryEntry.txid := by
      induction later with
      | nil => rfl
      | cons first rest ih =>
          rw [List.filter_cons, List.filter_cons, first.direction]
          split
          · rw [List.map_cons, List.map_cons, first.txid, ih]
          · exact ih
    constructor
    · rw [same changed]
      exact ok.distinct
    · intro after member unconfirmed
      obtain ⟨before, member, later⟩ := (exists_later changed).2 after member
      rw [later.direction]
      cases later.waiting unconfirmed with
      | inl already => exact ok.unconfirmed before member already
      | inr sent => exact sent.1
  discover incoming confirmed ok := ok.concat incoming confirmed
  record sent _ _ _ fresh ok := ok.cons sent fresh

variable {db : WalletFile}

theorem settledHistory (ok : HistoryOk db.history) (scanner : Scanner P) (blocks : List Block)
    (force : Bool) : HistoryOk (db.settledHistory scanner blocks force) :=
  (lasting (P := P)).settledHistory scanner blocks force ok

theorem scanBlocksInner (ok : HistoryOk db.history) (scanner : Scanner P) (blocks : List Block)
    (force : Bool) : HistoryOk (db.scanBlocksInner scanner blocks force).1.history :=
  (lasting (P := P)).scanBlocksInner scanner blocks force ok

theorem ingestScanPage (ok : HistoryOk db.history) (scanner : Scanner P) (page : ScanPage) :
    HistoryOk (db.ingestScanPage scanner page).1.history :=
  (lasting (P := P)).ingestScanPage scanner page ok

end HistoryOk

/-- After a light rescan begins, only sends are left, all of them unconfirmed. -/
theorem HistoryOk.rescanned {history : List HistoryEntry} (ok : HistoryOk history) :
    HistoryOk ((history.filter fun entry => entry.direction == .sent).map
      fun entry => { entry with height := none, quarantined := true }) := by
  refine (ok.filter _).map (fun _ => rfl) (fun _ => rfl) ?_
  intro entry member _
  right
  simpa using List.of_mem_filter member

end WalletFile

namespace Wallet

variable {S : Sealing} {C : TransferCrypto P} {wallet : Wallet P}

theorem scanBlocks_db (wallet : Wallet P) (blocks : List Block) :
    (wallet.scanBlocks S blocks).2.db = wallet.db ∨
      (wallet.scanBlocks S blocks).2.db =
        (wallet.db.scanBlocksInner (wallet.scanner S) blocks false).1 := by
  unfold scanBlocks
  split
  · exact .inl rfl
  · exact .inr rfl

theorem rebaseOnShorterChain_db (wallet : Wallet P) (blocks : List Block) :
    (wallet.rebaseOnShorterChain S blocks).2.db = wallet.db ∨
      (wallet.rebaseOnShorterChain S blocks).2.db =
        (wallet.db.scanBlocksInner (wallet.scanner S) blocks true).1 := by
  unfold rebaseOnShorterChain
  split
  · exact .inl rfl
  · exact .inr rfl

/-- An anchored page is refused, or ingested with an anchor that may be new. -/
theorem ingestAnchoredScanPage_db (wallet : Wallet P) (page : ScanPage) (start : UInt64)
    (startHash scannedHash : Text) :
    (wallet.ingestAnchoredScanPage S page start startHash scannedHash).2.db = wallet.db ∨
      ∃ tip, (wallet.ingestAnchoredScanPage S page start startHash scannedHash).2.db =
        { (wallet.db.ingestScanPage (wallet.scanner S) page).1 with scannedTip := tip } := by
  unfold ingestAnchoredScanPage
  split
  · exact .inl rfl
  · split
    · exact .inl rfl
    · next lastHash _ =>
        right
        unfold ingestScanPage
        cases saved : ({ wallet with
          db := (wallet.db.ingestScanPage (wallet.scanner S) page).1 } : Wallet P).save with
        | error error => exact ⟨(wallet.db.ingestScanPage (wallet.scanner S) page).1.scannedTip,
            by simp [saved, Except.map]⟩
        | ok done => exact ⟨lastHash.toHex, by simp [saved, Except.map]⟩

theorem beginLightRescan_db (wallet : Wallet P) :
    wallet.beginLightRescan.2.db = wallet.db ∨
      (wallet.db.swapJournal = [] ∧ wallet.db.reserved = []) ∧
      wallet.beginLightRescan.2.db =
        { wallet.db with
          outputs := []
          history := (wallet.db.history.filter fun entry => entry.direction == .sent).map
            fun entry => { entry with height := none, quarantined := true }
          scannedTo := wallet.db.birthHeight
          scannedTip := [] } := by
  unfold beginLightRescan
  split
  · exact .inl rfl
  · split
    · exact .inl rfl
    · next resolved =>
        rw [not_not] at resolved
        exact .inr ⟨by simpa using resolved, rfl⟩

theorem recordBuilt_db (wallet : Wallet P) (built : Except PaymentError Transaction)
    (amount : UInt64) (memo : Text) (timestamp : UInt64) :
    (built.toOption = none ∧ (wallet.recordBuilt built amount memo timestamp).db = wallet.db) ∨
      ∃ tx, built = .ok tx ∧ (wallet.recordBuilt built amount memo timestamp).db =
        WalletFile.recordSendAt P tx amount memo timestamp wallet.db := by
  cases built with
  | error error => exact .inl ⟨rfl, rfl⟩
  | ok tx => exact .inr ⟨tx, rfl, rfl⟩

theorem editOrRollBack_db (wallet : Wallet P) (change : WalletFile → WalletFile) :
    (wallet.editOrRollBack change).2.db = wallet.db ∨
      (wallet.editOrRollBack change).2.db = change wallet.db := by
  unfold editOrRollBack
  simp only
  split
  · exact .inr rfl
  · exact .inl rfl

theorem editIfChanged_db (wallet : Wallet P) (change : WalletFile → WalletFile) :
    (wallet.editIfChanged change).2.db = change wallet.db := by
  unfold editIfChanged
  split
  · next same => exact same.symm
  · rfl

theorem releaseSends_db (wallet : Wallet P) (txids : List Text) (unspend : List Commitment) :
    (wallet.releaseSends txids unspend).2.db = wallet.db ∨
      (wallet.releaseSends txids unspend).2.db = (wallet.db.releaseSends txids unspend).1 := by
  unfold releaseSends
  simp only
  split
  · exact .inl rfl
  · exact wallet.editOrRollBack_db _

/-- A property that lasts is kept by every operation on a wallet. -/
theorem lasting_step {holds : List HistoryEntry → Prop} (lasting : WalletFile.Lasting P holds)
    (before : holds wallet.db.history) (op : WalletOp P) : holds (wallet.step S C op).db.history := by
  cases op with
  | scanBlocks blocks =>
      cases wallet.scanBlocks_db (S := S) blocks with
      | inl same => exact same ▸ before
      | inr scanned =>
          simp only [step, scanned]
          exact lasting.scanBlocksInner _ _ _ before
  | rebaseOnShorterChain blocks =>
      cases wallet.rebaseOnShorterChain_db (S := S) blocks with
      | inl same => exact same ▸ before
      | inr scanned =>
          simp only [step, scanned]
          exact lasting.scanBlocksInner _ _ _ before
  | ingestScanPage page => exact lasting.ingestScanPage _ page before
  | ingestAnchoredScanPage page start startHash scannedHash =>
      cases wallet.ingestAnchoredScanPage_db (S := S) page start startHash scannedHash with
      | inl same => exact same ▸ before
      | inr ingested =>
          obtain ⟨tip, ingested⟩ := ingested
          simp only [step, ingested]
          exact lasting.ingestScanPage _ page before
  | beginLightRescan =>
      cases wallet.beginLightRescan_db with
      | inl same => exact same ▸ before
      | inr rescanned =>
          simp only [step, rescanned.2]
          exact lasting.rescanned before
  | pay draws recipient amount fee memo tipHeight maturity timestamp =>
      cases wallet.recordBuilt_db _ amount memo timestamp with
      | inl same => exact same.2 ▸ before
      | inr recorded =>
          obtain ⟨tx, _, recorded⟩ := recorded
          simp only [step, recorded]
          exact lasting.recordSendAt tx amount memo timestamp before
  | payFrom draws commits recipient amount fee memo tipHeight maturity timestamp =>
      cases wallet.recordBuilt_db _ amount memo timestamp with
      | inl same => exact same.2 ▸ before
      | inr recorded =>
          obtain ⟨tx, _, recorded⟩ := recorded
          simp only [step, recorded]
          exact lasting.recordSendAt tx amount memo timestamp before
  | recordSend tx amount memo timestamp =>
      exact lasting.recordSendAt tx amount memo timestamp before
  | releaseSends txids unspend =>
      cases wallet.releaseSends_db txids unspend with
      | inl same => exact same ▸ before
      | inr released =>
          simp only [step, released]
          exact lasting.releaseSends txids unspend before
  | reserveCommits hexes =>
      cases wallet.editOrRollBack_db (WalletFile.reserveCommits hexes) with
      | inl same => exact same ▸ before
      | inr edited =>
          simp only [step, reserveCommits, edited]
          exact before
  | releaseCommits hexes =>
      cases wallet.editOrRollBack_db (WalletFile.releaseCommits hexes) with
      | inl same => exact same ▸ before
      | inr edited =>
          simp only [step, releaseCommits, edited]
          exact before
  | quarantinePendingSends =>
      simp only [step, quarantinePendingSends, editIfChanged_db]
      exact lasting.quarantinePendingSends before
  | quarantineImportedSends =>
      simp only [step, quarantineImportedSends, editIfChanged_db]
      exact lasting.quarantineImportedSends before
  | exportImport => exact before

/-- Every operation keeps the sends distinct. -/
theorem historyOk_step (ok : WalletFile.HistoryOk wallet.db.history) (op : WalletOp P) :
    WalletFile.HistoryOk (wallet.step S C op).db.history :=
  lasting_step WalletFile.HistoryOk.lasting ok op

/-- Every wallet that grew from a fresh one has distinct sends. -/
theorem historyOk_run (network : NetworkId) (keys : WalletKeys P) (birthHeight : UInt64)
    (ops : List (WalletOp P)) :
    WalletFile.HistoryOk
      (GuardedRun.run (step S C) (inMemory network keys birthHeight) ops).db.history := by
  have along : GuardedRun.Along (step S C) (fun _ _ => True)
      (inMemory network keys birthHeight) ops :=
    .of_forall_mem _ fun _ _ => trivial
  let holds (wallet : Wallet P) : Prop := WalletFile.HistoryOk wallet.db.history
  have initially : holds (inMemory network keys birthHeight) := WalletFile.HistoryOk.nil
  have preserved : ∀ wallet op, holds wallet → True → holds (wallet.step S C op) :=
    fun _ op ok _ => historyOk_step ok op
  exact along.invariant initially preserved

/-- A wallet that some operations made of a fresh one. -/
def Grown (S : Sealing) (C : TransferCrypto P) (wallet : Wallet P) : Prop :=
  ∃ network keys birthHeight ops,
    wallet = GuardedRun.run (step S C) (inMemory network keys birthHeight) ops

theorem Grown.historyOk (grown : wallet.Grown S C) : WalletFile.HistoryOk wallet.db.history := by
  obtain ⟨network, keys, birthHeight, ops, rfl⟩ := grown
  exact historyOk_run network keys birthHeight ops

end Wallet

end Nightfall
