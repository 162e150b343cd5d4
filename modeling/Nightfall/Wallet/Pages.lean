import Nightfall.Wallet.Feed
import Nightfall.Wallet.Run

/-!
# Pages of one chain

A chain shown page by page, each page starting with the last block of the one before,
and what a served page does to the outputs and to the sends.
-/

namespace Nightfall

variable {P : Primitives}

/-- A page of at least one block. -/
structure BlockPage where
  first : Block
  rest : List Block
  deriving DecidableEq

namespace BlockPage

def blocks (page : BlockPage) : List Block :=
  page.first :: page.rest

def last (page : BlockPage) : Block :=
  (page.first :: page.rest).getLast (by simp)

/-- The page as the feed serves it. -/
def feed (page : BlockPage) : ScanPage :=
  scanFeed page.first.height page.blocks

def consumed (page : BlockPage) : List Commitment :=
  Block.consumed page.blocks

variable (P) in
/-- At most 1024 linked blocks. -/
def Valid (page : BlockPage) : Prop :=
  Block.Linked P page.blocks ∧ page.blocks.length ≤ 1024

variable (P) in
/-- Every output of the page passes the reader's checks, and no commitment repeats. -/
def WellFormed (page : BlockPage) : Prop :=
  (∀ block ∈ page.blocks, ∀ output ∈ block.body.outputs,
    WalletFile.WellFormed P (.fromOutput output)) ∧ (Block.created page.blocks).Nodup

instance (page : BlockPage) : Decidable (page.Valid P) :=
  inferInstanceAs (Decidable (_ ∧ _))

instance (page : BlockPage) : Decidable (page.WellFormed P) :=
  inferInstanceAs (Decidable (_ ∧ _))

/-- Each page starts with the last block of the page before. -/
def Overlapping (pages : List BlockPage) : Prop :=
  pages.IsChain fun earlier later => later.first = earlier.last

theorem Valid.last_height {page : BlockPage} (valid : page.Valid P) :
    page.last.height.toNat = page.first.height.toNat + page.rest.length :=
  Block.Consecutive.getLast_height valid.1.consecutive

end BlockPage

namespace WalletFile

/-! ## What a served page does to the outputs -/

variable {scanner : Scanner P} {db : WalletFile}

theorem discoveredInPage_scanFeed (known : List Commitment) (start : UInt64)
    (blocks : List Block) :
    discoveredInPage scanner known (scanFeed start blocks).outputs =
      blocks.flatMap fun block => (discovered scanner known block).map fun (output, found) =>
        (block.lightOutput output, found) := by
  simp only [discoveredInPage, scanFeed, List.filterMap_flatMap, List.filterMap_map]
  apply List.flatMap_congr
  intro block _
  simp only [discovered, List.map_filterMap]
  apply List.filterMap_congr
  intro output _
  simp only [Function.comp_apply, Block.asCandidate_lightOutput, Option.bind_eq_bind,
    Option.bind_some]
  by_cases unknown : output.commit ∈ known
  · rw [if_pos (by exact unknown), if_pos unknown, Option.map_none]
  · rw [if_neg (by exact unknown), if_neg unknown]
    simp [Scanner.scanOutput, Function.comp_def]

/-- A served page and the blocks it was made from give the same outputs. -/
theorem ingestScanPage_outputs (start : UInt64) (blocks : List Block) :
    (db.ingestScanPage scanner (scanFeed start blocks)).1.outputs =
      db.mergedOutputs scanner blocks := by
  simp only [ingestScanPage, scanFeed_spent, discoveredInPage_scanFeed, mergedOutputs,
    Block.consumed, List.map_flatMap, List.map_map]
  rfl

@[simp] theorem ingestScanPage_reserved (page : ScanPage) :
    (db.ingestScanPage scanner page).1.reserved = db.reserved := rfl

@[simp] theorem ingestScanPage_birthHeight (page : ScanPage) :
    (db.ingestScanPage scanner page).1.birthHeight = db.birthHeight := rfl

@[simp] theorem ingestScanPage_scannedTo (page : ScanPage) :
    (db.ingestScanPage scanner page).1.scannedTo = max db.scannedTo page.scannedTo := rfl

/-- Does a block list create this commitment as an output of the scanner's wallet? -/
def Creates (scanner : Scanner P) (blocks : List Block) (commit : Commitment) : Prop :=
  ∃ block ∈ blocks, ∃ output ∈ block.body.outputs,
    output.commit = commit ∧ (scanner.scanOutput output).isSome

theorem mem_ownedOf_commit {known : List Commitment} {blocks : List Block}
    {commit : Commitment} :
    (∃ owned ∈ blocks.flatMap (ownedOf scanner known), owned.commit = commit) ↔
      commit ∉ known ∧ Creates scanner blocks commit := by
  constructor
  · rintro ⟨owned, member, rfl⟩
    obtain ⟨block, blockMember, member⟩ := List.mem_flatMap.mp member
    obtain ⟨output, outputMember, unknown, found, scanned, rfl⟩ := mem_ownedOf.mp member
    have same : (found.owned block.height output.features.isCoinbase).commit = output.commit :=
      scanner.commit_of_scanOutput scanned
    rw [same]
    exact ⟨unknown, block, blockMember, output, outputMember, rfl, by simp [scanned]⟩
  · rintro ⟨unknown, block, blockMember, output, outputMember, rfl, owned⟩
    obtain ⟨found, scanned⟩ := Option.isSome_iff_exists.mp owned
    exact ⟨_, List.mem_flatMap.mpr ⟨block, blockMember,
      mem_ownedOf.mpr ⟨output, outputMember, unknown, found, scanned, rfl⟩⟩,
      scanner.commit_of_scanOutput scanned⟩

/-- Commitments with an owned output that is not marked spent. -/
def Unspent (outputs : List OwnedOutput) (commit : Commitment) : Prop :=
  ∃ output ∈ outputs, output.commit = commit ∧ output.spent = false

/-- After a scan the wallet also knows what the blocks created for it. -/
theorem mem_known_mergedOutputs {blocks : List Block} {commit : Commitment} :
    commit ∈ (db.mergedOutputs scanner blocks).map OwnedOutput.commit ↔
      commit ∈ db.known ∨ Creates scanner blocks commit := by
  rw [mergedOutputs, markSpent_commits, List.map_append, List.mem_append]
  change commit ∈ db.known ∨ _ ↔ _
  rw [List.mem_map, mem_ownedOf_commit]
  tauto

theorem unspent_markSpent {spent : List Commitment} {outputs : List OwnedOutput}
    {commit : Commitment} :
    Unspent (markSpent spent outputs) commit ↔ commit ∉ spent ∧ Unspent outputs commit := by
  simp only [Unspent, markSpent, List.mem_map]
  constructor
  · rintro ⟨_, ⟨output, member, rfl⟩, same, unspent⟩
    split at unspent
    · simp at unspent
    · next notConsumed =>
        rw [if_neg notConsumed] at same
        exact ⟨same ▸ notConsumed, output, member, same, unspent⟩
  · rintro ⟨notConsumed, output, member, rfl, unspent⟩
    exact ⟨output, ⟨output, member, by rw [if_neg notConsumed]⟩, rfl, unspent⟩

/-- The unspent outputs after a scan that does not reconcile. -/
theorem unspent_mergedOutputs {blocks : List Block} {commit : Commitment} :
    Unspent (db.mergedOutputs scanner blocks) commit ↔
      commit ∉ Block.consumed blocks ∧ (Unspent db.outputs commit ∨
        commit ∉ db.known ∧ Creates scanner blocks commit) := by
  rw [mergedOutputs, unspent_markSpent, ← mem_ownedOf_commit]
  have fresh : ∀ owned ∈ blocks.flatMap (ownedOf scanner db.known), owned.spent = false := by
    intro owned member
    obtain ⟨block, _, member⟩ := List.mem_flatMap.mp member
    obtain ⟨_, _, _, _, _, rfl⟩ := mem_ownedOf.mp member
    rfl
  apply and_congr_right
  intro _
  constructor
  · rintro ⟨output, member, same, unspent⟩
    cases List.mem_append.mp member with
    | inl before => exact .inl ⟨output, before, same, unspent⟩
    | inr created => exact .inr ⟨output, created, same⟩
  · intro cases
    rcases cases with ⟨output, member, same, unspent⟩ | ⟨owned, member, same⟩
    · exact ⟨output, List.mem_append_left _ member, same, unspent⟩
    · exact ⟨owned, List.mem_append_right _ member, same, fresh owned member⟩

/-! ## What a scan does to the sends -/

/-- Every recorded input, of which there is one at least, is in the list. -/
def Covered (spent : List Commitment) (entry : HistoryEntry) : Prop :=
  entry.spentCommits ≠ [] ∧ ∀ commit ∈ entry.spentCommits, commit ∈ spent

instance (spent : List Commitment) (entry : HistoryEntry) : Decidable (Covered spent entry) :=
  inferInstanceAs (Decidable (_ ∧ _))

/-- The confirmations name exactly the pending sends that `spent` covers. -/
def Settles (db : WalletFile) (spent : List Commitment)
    (confirmed : List (Text × UInt64 × UInt64)) : Prop :=
  ∀ txid, (∃ confirmation ∈ confirmed, confirmation.1 = txid) ↔
    ∃ entry ∈ db.history, entry.isPendingSend ∧ Covered spent entry ∧ entry.txid = txid

/-- Two sends with one id are the same entry. -/
theorem HistoryOk.eq_of_txid {history : List HistoryEntry} (ok : HistoryOk history)
    {left right : HistoryEntry} (leftMember : left ∈ history) (rightMember : right ∈ history)
    (leftSent : left.direction = .sent) (rightSent : right.direction = .sent)
    (same : left.txid = right.txid) : left = right := by
  have inSends (entry : HistoryEntry) (member : entry ∈ history)
      (sent : entry.direction = .sent) :
      entry ∈ history.filter fun entry => entry.direction = .sent :=
    List.mem_filter.mpr ⟨member, by simpa using sent⟩
  exact List.inj_on_of_nodup_map ok.distinct (inSends left leftMember leftSent)
    (inSends right rightMember rightSent) same

/-- A send is unconfirmed after a scan exactly if it was and, unless it had failed, the
scan did not cover it. -/
theorem Settles.height_eq_none {spent : List Commitment}
    {confirmed : List (Text × UInt64 × UInt64)} (settles : db.Settles spent confirmed)
    (ok : HistoryOk db.history) {entry : HistoryEntry} (member : entry ∈ db.history)
    (sent : entry.direction = .sent) :
    (confirmEntry confirmed entry).height = none ↔
      entry.height = none ∧ (entry.failed ∨ ¬Covered spent entry) := by
  rw [confirmEntry_height_eq_none]
  apply and_congr_right
  intro unconfirmed
  have named : (∃ confirmation ∈ confirmed, confirmation.1 = entry.txid) ↔
      ¬entry.failed ∧ Covered spent entry := by
    rw [settles]
    constructor
    · rintro ⟨other, otherMember, pending, covered, same⟩
      simp only [HistoryEntry.isPendingSend, HistoryEntry.isPending, Bool.and_eq_true,
        beq_iff_eq, Bool.not_eq_true'] at pending
      have identical := ok.eq_of_txid otherMember member pending.1 sent same
      subst identical
      exact ⟨by simp [pending.2.2], covered⟩
    · rintro ⟨alive, covered⟩
      refine ⟨entry, member, ?_, covered, rfl⟩
      simp [HistoryEntry.isPendingSend, HistoryEntry.isPending, sent, unconfirmed, alive]
  constructor
  · intro unnamed
    by_contra settled
    rw [not_or, not_not] at settled
    obtain ⟨confirmation, confirmationMember, same⟩ := named.mpr settled
    exact unnamed confirmation confirmationMember same
  · rintro unsettled confirmation confirmationMember same
    obtain ⟨alive, covered⟩ := named.mp ⟨confirmation, confirmationMember, same⟩
    exact unsettled.elim alive fun uncovered => uncovered covered

/-- The confirmations of a page. -/
def pageConfirmations (db : WalletFile) (page : ScanPage) : List (Text × UInt64 × UInt64) :=
  (db.pendingSends.filter fun (_, commits) =>
      commits ≠ [] ∧ ∀ commit ∈ commits, commit ∈ page.spent.filterMap decode32).map
    fun (txid, _) => (txid, pageHeight page.outputs page.scannedTo, pageTime page.outputs)

theorem pageConfirmations_settles (page : ScanPage) :
    db.Settles (page.spent.filterMap decode32) (db.pageConfirmations page) := by
  intro txid
  simp only [pageConfirmations, pendingSends, List.mem_map, List.mem_filter, Prod.exists,
    Covered, decide_eq_true_eq]
  constructor
  · rintro ⟨_, _, _, ⟨_, _, ⟨⟨entry, ⟨member, pending⟩, pair⟩, covered⟩, confirmation⟩, rfl⟩
    cases pair
    cases confirmation
    exact ⟨entry, member, pending, covered, rfl⟩
  · rintro ⟨entry, member, pending, covered, rfl⟩
    exact ⟨_, _, _, ⟨_, _, ⟨⟨entry, ⟨member, pending⟩, rfl⟩, covered⟩, rfl⟩, rfl⟩

/-- Discoveries add no send. -/
theorem sends_appendNew {same : HistoryEntry → HistoryEntry → Bool}
    {found history : List HistoryEntry} (incoming : ∀ entry ∈ found, entry.direction ≠ .sent) :
    (appendNew same found history).filter (fun entry => entry.direction = .sent) =
      history.filter fun entry => entry.direction = .sent := by
  induction found generalizing history with
  | nil => rfl
  | cons entry rest ih =>
      have others := fun other member => incoming other (List.mem_cons_of_mem entry member)
      rw [appendNew, List.foldl_cons]
      split
      · exact ih others
      · rw [← appendNew, ih others, List.filter_append, List.filter_cons_of_neg
          (by simpa using incoming entry List.mem_cons_self), List.filter_nil, List.append_nil]

/-- Sorting and appending discoveries leave the sends alone. -/
theorem mem_sends_sortHistory_appendNew {same : HistoryEntry → HistoryEntry → Bool}
    {found history : List HistoryEntry} (incoming : ∀ entry ∈ found, entry.direction ≠ .sent)
    {entry : HistoryEntry} (sent : entry.direction = .sent) :
    entry ∈ sortHistory (appendNew same found history) ↔ entry ∈ history := by
  have filtered (list : List HistoryEntry) :
      entry ∈ list ↔ entry ∈ list.filter fun entry => entry.direction = .sent := by
    simp [sent]
  rw [sortHistory, (List.perm_insertionSort _ _).mem_iff, filtered, sends_appendNew incoming,
    ← filtered]

/-- The sends after a page are the sends before it, each confirmed or not. -/
theorem mem_ingestScanPage_history (ok : HistoryOk db.history) {page : ScanPage}
    {entry : HistoryEntry} (sent : entry.direction = .sent) :
    entry ∈ (db.ingestScanPage scanner page).1.history ↔
      ∃ before ∈ db.history, confirmEntry (db.pageConfirmations page) before = entry := by
  have history : (db.ingestScanPage scanner page).1.history = sortHistory (appendNew sameReceipt
      (((discoveredInPage scanner db.known page.outputs).filter fun discovery =>
          discovery.1.coinbase || !sharesSpent (page.spent.filterMap decode32) db.known).map
        fun discovery =>
          discovery.2.incoming discovery.1.height discovery.1.timestamp discovery.1.coinbase)
      (confirmAll (db.pageConfirmations page) db.history)) := rfl
  rw [history, mem_sends_sortHistory_appendNew _ sent, confirmAll_eq_map ok, List.mem_map]
  intro discovery member
  obtain ⟨⟨output, found⟩, _, rfl⟩ := List.mem_map.mp member
  exact (incoming_isReceipt found _ _ _).1

end WalletFile

end Nightfall
