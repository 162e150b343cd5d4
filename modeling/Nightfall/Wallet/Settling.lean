import Nightfall.Library.FirstOfKey
import Nightfall.Wallet.Pages

/-!
# Which block settles a send

A full scan confirms a pending send at the first block by which all its inputs were
consumed, a page at the height of the page.
-/

namespace Nightfall

variable {P : Primitives}

namespace WalletFile

theorem appendNew_eq {κ : Type} [DecidableEq κ] {same : HistoryEntry → HistoryEntry → Bool}
    {key : HistoryEntry → κ}
    (byKey : ∀ held item, same held item = true ↔ key held = key item)
    (found history : List HistoryEntry) :
    appendNew same found history = history ++ FirstOfKey.news key (history.map key) found :=
  FirstOfKey.extend_eq byKey found history

/-- What tells two receipts apart in a full scan. -/
def receiptKey (entry : HistoryEntry) : Text × Direction × UInt64 :=
  (entry.txid, entry.direction, entry.amount)

/-- What tells two receipts apart in a page. -/
def pageKey (key : Text × Direction × UInt64) : Text × Direction :=
  (key.1, key.2.1)

theorem sameIncoming_iff (held entry : HistoryEntry) :
    sameIncoming held entry = true ↔ receiptKey held = receiptKey entry := by
  simp [sameIncoming, receiptKey, and_assoc]

theorem sameReceipt_iff (held entry : HistoryEntry) :
    sameReceipt held entry = true ↔
      (pageKey ∘ receiptKey) held = (pageKey ∘ receiptKey) entry := by
  simp [sameReceipt, receiptKey, pageKey]

@[simp] theorem confirmEntry_receiptKey (confirmed : List (Text × UInt64 × UInt64))
    (entry : HistoryEntry) : receiptKey (confirmEntry confirmed entry) = receiptKey entry := by
  unfold confirmEntry
  split
  · split <;> rfl
  · rfl

/-! ## The settling block -/

@[simp] theorem not_covered_nil {entry : HistoryEntry} : ¬Covered [] entry := by
  rintro ⟨recorded, consumed⟩
  obtain ⟨commit, member⟩ := List.exists_mem_of_ne_nil _ recorded
  exact List.not_mem_nil (consumed commit member)

theorem Covered.mono {spent more : List Commitment} {entry : HistoryEntry}
    (covered : Covered spent entry) (subset : spent ⊆ more) : Covered more entry :=
  ⟨covered.1, fun commit member => subset (covered.2 commit member)⟩

/-- The first block by which all inputs of the entry were consumed, if `spent` was
consumed before. -/
def settlingBlock (spent : List Commitment) (entry : HistoryEntry) : List Block → Option Block
  | [] => none
  | block :: rest =>
      if Covered (spent ++ block.body.inputCommits) entry then some block
      else settlingBlock (spent ++ block.body.inputCommits) entry rest

theorem settlingBlock_eq_none {spent : List Commitment} {entry : HistoryEntry}
    {blocks : List Block} (before : ¬Covered spent entry) :
    settlingBlock spent entry blocks = none ↔ ¬Covered (spent ++ Block.consumed blocks) entry := by
  induction blocks generalizing spent with
  | nil => simpa [settlingBlock, Block.consumed] using before
  | cons block rest ih =>
      have split : spent ++ Block.consumed (block :: rest) =
          (spent ++ block.body.inputCommits) ++ Block.consumed rest := by
        simp [Block.consumed]
      rw [settlingBlock, split]
      split
      · next covered =>
          simp only [reduceCtorEq, false_iff, not_not]
          exact covered.mono (List.subset_append_left _ _)
      · next uncovered => exact ih uncovered

theorem settlingBlock_eq_some {spent : List Commitment} {entry : HistoryEntry}
    {blocks : List Block} {block : Block} (start : ¬Covered spent entry) :
    settlingBlock spent entry blocks = some block ↔ ∃ before after,
      blocks = before ++ block :: after ∧
        Covered (spent ++ Block.consumed (before ++ [block])) entry ∧
        ¬Covered (spent ++ Block.consumed before) entry := by
  induction blocks generalizing spent with
  | nil => simp [settlingBlock]
  | cons head rest ih =>
      rw [settlingBlock]
      split
      · next covered =>
          rw [Option.some.injEq]
          constructor
          · rintro rfl
            exact ⟨[], rest, rfl, by simpa [Block.consumed] using covered,
              by simpa [Block.consumed] using start⟩
          · rintro ⟨before, after, split, _, uncovered⟩
            cases before with
            | nil => exact (List.cons.inj split).1
            | cons first before =>
                obtain ⟨rfl, _⟩ := List.cons.inj split
                refine absurd (covered.mono ?_) uncovered
                simp [Block.consumed]
      · next uncovered =>
          rw [ih uncovered]
          constructor
          · rintro ⟨before, after, rfl, covered, notYet⟩
            exact ⟨head :: before, after, rfl, by simpa [Block.consumed] using covered,
              by simpa [Block.consumed] using notYet⟩
          · rintro ⟨before, after, split, covered, notYet⟩
            cases before with
            | nil =>
                obtain ⟨rfl, _⟩ := List.cons.inj split
                exact absurd (by simpa [Block.consumed] using covered) uncovered
            | cons first before =>
                obtain ⟨rfl, rfl⟩ := List.cons.inj split
                exact ⟨before, after, rfl, by simpa [Block.consumed] using covered,
                  by simpa [Block.consumed] using notYet⟩

theorem covered_of_settlingBlock {entry : HistoryEntry} {blocks : List Block} {block : Block}
    (settles : settlingBlock [] entry blocks = some block) :
    Covered (Block.consumed blocks) entry := by
  by_contra uncovered
  rw [(settlingBlock_eq_none not_covered_nil).mpr uncovered] at settles
  cases settles

/-! ## Looking up a confirmation -/

/-- The confirmation of an id. -/
def confirmationOf (confirmed : List (Text × UInt64 × UInt64)) (txid : Text) :
    Option (Text × UInt64 × UInt64) :=
  confirmed.find? fun confirmation => confirmation.1 == txid

/-- Is this id pending with inputs that are all in `spent`? -/
def SettledBy (pending : List (Text × List Commitment)) (spent : List Commitment) (txid : Text) :
    Prop :=
  ∃ send ∈ pending, send.1 = txid ∧ send.2 ≠ [] ∧ ∀ commit ∈ send.2, commit ∈ spent

instance (pending : List (Text × List Commitment)) (spent : List Commitment) (txid : Text) :
    Decidable (SettledBy pending spent txid) :=
  inferInstanceAs (Decidable (∃ send ∈ pending, _))

theorem confirmationOf_settle (pending : List (Text × List Commitment))
    (spent : List Commitment) (height timestamp : UInt64)
    (confirmed : List (Text × UInt64 × UInt64)) (txid : Text) :
    confirmationOf (settle pending spent height timestamp confirmed) txid =
      (confirmationOf confirmed txid).or
        (if SettledBy pending spent txid then some (txid, height, timestamp) else none) := by
  induction pending generalizing confirmed with
  | nil => simp [settle, SettledBy]
  | cons send rest ih =>
      obtain ⟨sent, commits⟩ := send
      have step : settle ((sent, commits) :: rest) spent height timestamp confirmed =
          settle rest spent height timestamp
            (if commits ≠ [] ∧ (∀ commit ∈ commits, commit ∈ spent) ∧
                ¬confirmed.any fun entry => entry.1 == sent then
              confirmed ++ [(sent, height, timestamp)]
            else confirmed) := rfl
      rw [step]
      by_cases covered : commits ≠ [] ∧ ∀ commit ∈ commits, commit ∈ spent
      · by_cases same : sent = txid
        · subst same
          have settled : SettledBy ((sent, commits) :: rest) spent sent :=
            ⟨_, List.mem_cons_self, rfl, covered⟩
          rw [if_pos settled]
          cases found : confirmationOf confirmed sent with
          | some confirmation =>
              have listed : confirmed.any fun entry => entry.1 == sent := by
                rw [confirmationOf] at found
                rw [List.any_eq_true]
                have same := List.find?_some found
                exact ⟨confirmation, List.mem_of_find?_eq_some found, same⟩
              rw [if_neg (by simp [listed]), ih, found]
              rfl
          | none =>
              have unlisted : ¬confirmed.any fun entry => entry.1 == sent := by
                rw [confirmationOf, List.find?_eq_none] at found
                rw [List.any_eq_true]
                rintro ⟨confirmation, listed, same⟩
                exact found confirmation listed same
              rw [if_pos ⟨covered.1, covered.2, unlisted⟩, ih]
              have appended : confirmationOf (confirmed ++ [(sent, height, timestamp)]) sent =
                  some (sent, height, timestamp) := by
                rw [confirmationOf, List.find?_append]
                rw [confirmationOf] at found
                simp [found]
              rw [appended]
              rfl
        · have elsewhere : SettledBy ((sent, commits) :: rest) spent txid ↔
              SettledBy rest spent txid := by
            simp [SettledBy, same]
          have unchanged : confirmationOf (confirmed ++ [(sent, height, timestamp)]) txid =
              confirmationOf confirmed txid := by
            simp [confirmationOf, same]
          simp only [elsewhere]
          split
          · rw [ih, unchanged]
          · rw [ih]
      · have elsewhere : SettledBy ((sent, commits) :: rest) spent txid ↔
            SettledBy rest spent txid := by
          simp only [SettledBy, List.exists_mem_cons_iff]
          tauto
        rw [if_neg (by tauto), ih]
        simp only [elsewhere]

/-- A pending send of a sound activity list is settled by what covers it. -/
theorem settledBy_pendingSends {db : WalletFile} (ok : HistoryOk db.history)
    {entry : HistoryEntry} (member : entry ∈ db.history) (pending : entry.isPendingSend)
    (spent : List Commitment) :
    SettledBy db.pendingSends spent entry.txid ↔ Covered spent entry := by
  have direction (other : HistoryEntry) (waits : other.isPendingSend) :
      other.direction = .sent := by
    simp only [HistoryEntry.isPendingSend, Bool.and_eq_true, beq_iff_eq] at waits
    exact waits.1
  constructor
  · rintro ⟨_, listed, same, covered⟩
    simp only [pendingSends, List.mem_map, List.mem_filter] at listed
    obtain ⟨other, ⟨otherMember, waits⟩, rfl⟩ := listed
    have identical := ok.eq_of_txid otherMember member (direction other waits)
      (direction entry pending) same
    exact identical ▸ covered
  · intro covered
    exact ⟨_, List.mem_map_of_mem (List.mem_filter.mpr ⟨member, pending⟩), rfl, covered⟩

/-- A full scan confirms a pending send with its settling block. -/
theorem confirmationOf_confirmations {db : WalletFile} (ok : HistoryOk db.history)
    {entry : HistoryEntry} (member : entry ∈ db.history) (pending : entry.isPendingSend)
    (blocks : List Block) :
    confirmationOf (db.confirmations blocks) entry.txid =
      (settlingBlock [] entry blocks).map fun block =>
        (entry.txid, block.height, block.header.timestampUnix) := by
  have from' (spent : List Commitment) (confirmed : List (Text × UInt64 × UInt64)) :
      confirmationOf (confirmationsFrom db.pendingSends spent confirmed blocks) entry.txid =
        (confirmationOf confirmed entry.txid).or ((settlingBlock spent entry blocks).map
          fun block => (entry.txid, block.height, block.header.timestampUnix)) := by
    induction blocks generalizing spent confirmed with
    | nil => simp [confirmationsFrom, settlingBlock]
    | cons block rest ih =>
        rw [confirmationsFrom, settlingBlock, ih, confirmationOf_settle]
        simp only [settledBy_pendingSends ok member pending]
        split
        · cases confirmationOf confirmed entry.txid <;> simp
        · simp
  rw [confirmations, from']
  rfl

/-- A page confirms the sends it covers at the height of the page. -/
theorem confirmationOf_pageConfirmations {db : WalletFile} (ok : HistoryOk db.history)
    {entry : HistoryEntry} (member : entry ∈ db.history) (pending : entry.isPendingSend)
    (page : ScanPage) :
    confirmationOf (db.pageConfirmations page) entry.txid =
      if Covered (page.spent.filterMap decode32) entry then
        some (entry.txid, pageHeight page.outputs page.scannedTo, pageTime page.outputs)
      else none := by
  have settles := db.pageConfirmations_settles page entry.txid
  have waits (other : HistoryEntry) (otherMember : other ∈ db.history)
      (otherPending : other.isPendingSend) (same : other.txid = entry.txid) :
      other = entry := by
    simp only [HistoryEntry.isPendingSend, Bool.and_eq_true, beq_iff_eq] at pending otherPending
    exact ok.eq_of_txid otherMember member otherPending.1 pending.1 same
  cases found : confirmationOf (db.pageConfirmations page) entry.txid with
  | some confirmation =>
      rw [confirmationOf] at found
      have listed := List.mem_of_find?_eq_some found
      have same := List.find?_some found
      rw [beq_iff_eq] at same
      obtain ⟨other, otherMember, otherPending, covered, sameId⟩ :=
        settles.mp ⟨confirmation, listed, same⟩
      rw [if_pos (waits other otherMember otherPending sameId ▸ covered)]
      simp only [pageConfirmations, List.mem_map] at listed
      obtain ⟨send, _, rfl⟩ := listed
      rw [← same]
  | none =>
      rw [if_neg]
      intro covered
      obtain ⟨confirmation, listed, same⟩ :=
        settles.mpr ⟨entry, member, pending, covered, rfl⟩
      have absent := List.find?_eq_none.mp found confirmation listed
      simp [same] at absent

theorem confirmEntry_height {confirmed : List (Text × UInt64 × UInt64)} {entry : HistoryEntry}
    (unconfirmed : entry.height = none) :
    (confirmEntry confirmed entry).height =
      (confirmationOf confirmed entry.txid).map fun confirmation => confirmation.2.1 := by
  rw [confirmEntry, if_pos (by simp [unconfirmed]), confirmationOf]
  split
  · next found => rw [found]; rfl
  · next found => rw [found, unconfirmed]; rfl

/-! ## The height of a send -/

/-- The height that the activity list gives for a send. -/
def sendHeight (history : List HistoryEntry) (txid : Text) : Option (Option UInt64) :=
  (history.find? fun entry => entry.direction == .sent && entry.txid == txid).map
    HistoryEntry.height

theorem sendHeight_eq {history : List HistoryEntry} (ok : HistoryOk history)
    {entry : HistoryEntry} (member : entry ∈ history) (sent : entry.direction = .sent) :
    sendHeight history entry.txid = some entry.height := by
  rw [sendHeight]
  cases found : history.find? fun other =>
      other.direction == .sent && other.txid == entry.txid with
  | none =>
      have absent := List.find?_eq_none.mp found entry member
      simp [sent] at absent
  | some other =>
      have matches' := List.find?_some found
      simp only [Bool.and_eq_true, beq_iff_eq] at matches'
      rw [ok.eq_of_txid (List.mem_of_find?_eq_some found) member matches'.1 sent matches'.2]
      rfl

end WalletFile

end Nightfall
