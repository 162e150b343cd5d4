import Nightfall.Wallet.Pages
import Nightfall.Wallet.Sample

/-!
# Rebuilding a light scan

After `beginLightRescan` a wallet is fed the whole chain page by page.  Its outputs then
are those of a fresh wallet, and its sends are confirmed by the pages that cover them.
-/

namespace Nightfall

variable {P : Primitives}

namespace WalletFile

variable {scanner : Scanner P} {db : WalletFile}

/-- The stored state after an accepted page. -/
def ingestFeed (scanner : Scanner P) (db : WalletFile) (page : BlockPage) : WalletFile :=
  { (db.ingestScanPage scanner page.feed).1 with scannedTip := (page.last.hash P).toHex }

/-- The stored state after accepted pages. -/
def ingestFeeds (scanner : Scanner P) (db : WalletFile) (pages : List BlockPage) : WalletFile :=
  pages.foldl (ingestFeed scanner) db

@[simp] theorem ingestFeeds_nil : db.ingestFeeds scanner [] = db := rfl

@[simp] theorem ingestFeeds_cons (page : BlockPage) (rest : List BlockPage) :
    db.ingestFeeds scanner (page :: rest) =
      (db.ingestFeed scanner page).ingestFeeds scanner rest := rfl

theorem ingestFeed_outputs (page : BlockPage) :
    (db.ingestFeed scanner page).outputs = db.mergedOutputs scanner page.blocks :=
  ingestScanPage_outputs _ _

/-! ## When a page is accepted -/

/-- The wallet stands at the first block of this page, or begins with it. -/
structure ReadyFor (P : Primitives) (db : WalletFile) (page : BlockPage) : Prop where
  position : page.first.height = db.scanFrom
  rebuilt : db.needsLightRebuild = false
  anchor : if db.scannedTip.isEmpty then page.first.height = db.birthHeight
    else decode32 db.scannedTip = some (page.first.hash P)
  started : db.birthHeight ≤ page.first.height

/-- After a page the wallet stands at its last block. -/
theorem ReadyFor.ingestFeed {page next : BlockPage} (ready : db.ReadyFor P page)
    (valid : page.Valid P) (overlaps : next.first = page.last) :
    (db.ingestFeed scanner page).ReadyFor P next := by
  have lastHeight := valid.last_height
  have started := UInt64.le_iff_toNat_le.mp ready.started
  have reached : page.feed.scannedTo = page.last.height :=
    valid.1.consecutive.foldl_max (by omega)
  have below : db.scannedTo.toNat ≤ page.first.height.toNat := by
    rw [ready.position, scanFrom, UInt64.toNat_max]
    exact Nat.le_max_left _ _
  have position : (db.ingestFeed scanner page).scannedTo = page.last.height := by
    apply UInt64.toNat_inj.mp
    rw [WalletFile.ingestFeed, ingestScanPage_scannedTo, reached, UInt64.toNat_max]
    omega
  have tip : (db.ingestFeed scanner page).scannedTip = (page.last.hash P).toHex := rfl
  have birth : (db.ingestFeed scanner page).birthHeight = db.birthHeight := rfl
  refine ⟨?_, needsLightRebuild_of_anchor (tip ▸ Bytes32.toHex_ne_nil _), ?_, ?_⟩
  · apply UInt64.toNat_inj.mp
    rw [scanFrom, position, birth, overlaps, UInt64.toNat_max]
    omega
  · rw [tip, if_neg (by simpa using Bytes32.toHex_ne_nil _), overlaps, decode32_toHex]
  · rw [birth, overlaps, UInt64.le_iff_toNat_le]
    omega

end WalletFile

namespace Wallet

variable {S : Sealing}

/-- Feed one page with the hashes of its first and last block. -/
def feedPage (S : Sealing) (wallet : Wallet P) (page : BlockPage) :
    Except WalletError Nat × Wallet P :=
  wallet.ingestAnchoredScanPage S page.feed page.first.height (page.first.hash P).toHex
    (page.last.hash P).toHex

/-- Feed pages in order.  `none` as soon as one is refused. -/
def feedPages (S : Sealing) : Wallet P → List BlockPage → Option (Wallet P)
  | wallet, [] => some wallet
  | wallet, page :: rest =>
      match wallet.feedPage S page with
      | (.ok _, ingested) => feedPages S ingested rest
      | (.error _, _) => none

/-- A page that the wallet is ready for is accepted. -/
theorem feedPage_eq {wallet : Wallet P} {page : BlockPage} (memory : wallet.storage = .memory)
    (ready : wallet.db.ReadyFor P page) (valid : page.Valid P) (formed : page.WellFormed P) :
    ∃ found, wallet.feedPage S page = (.ok found,
      { wallet with db := wallet.db.ingestFeed (wallet.scanner S) page }) := by
  have checks := (WalletFile.anchoredPage_scanFeed_iff (P := P) valid.1.consecutive valid.2
    ready.position ready.rebuilt ready.anchor formed.2).mpr formed.1
  have passed : wallet.db.checkAnchoredPage P page.feed page.first.height
      (page.first.hash P).toHex (page.last.hash P).toHex = .ok (page.last.hash P) :=
    WalletFile.checkAnchoredPage_eq_ok.mpr
      ⟨_, decode32_toHex _, decode32_toHex _, checks⟩
  refine ⟨(wallet.db.ingestScanPage (wallet.scanner S) page.feed).2, ?_⟩
  simp [feedPage, ingestAnchoredScanPage, persist, memory, passed, ingestScanPage, save,
    Except.map, WalletFile.ingestFeed]

/-- All pages of a chain are accepted, one after the other. -/
theorem feedPages_eq {wallet : Wallet P} {pages : List BlockPage}
    (memory : wallet.storage = .memory)
    (ready : ∀ page ∈ pages.head?, wallet.db.ReadyFor P page)
    (valid : ∀ page ∈ pages, page.Valid P) (formed : ∀ page ∈ pages, page.WellFormed P)
    (overlapping : BlockPage.Overlapping pages) :
    wallet.feedPages S pages =
      some { wallet with db := wallet.db.ingestFeeds (wallet.scanner S) pages } := by
  induction pages generalizing wallet with
  | nil => rfl
  | cons page rest ih =>
      have first := ready page rfl
      have pageValid := valid page List.mem_cons_self
      obtain ⟨found, accepted⟩ := feedPage_eq (S := S) memory first pageValid
        (formed page List.mem_cons_self)
      rw [feedPages, accepted]
      simp only
      rw [ih]
      · rfl
      · exact memory
      · intro next atHead
        exact first.ingestFeed pageValid (List.IsChain.rel_head? overlapping atHead)
      · exact fun later member => valid later (List.mem_cons_of_mem _ member)
      · exact fun later member => formed later (List.mem_cons_of_mem _ member)
      · exact List.IsChain.tail overlapping

end Wallet

namespace WalletFile

variable {scanner : Scanner P} {db : WalletFile}

/-! ## The outputs after all pages -/

/-- The outputs depend on nothing but the outputs. -/
theorem ingestFeeds_outputs_congr {left right : WalletFile} (same : left.outputs = right.outputs)
    (pages : List BlockPage) :
    (left.ingestFeeds scanner pages).outputs = (right.ingestFeeds scanner pages).outputs := by
  induction pages generalizing left right with
  | nil => exact same
  | cons page rest ih =>
      apply ih
      rw [ingestFeed_outputs, ingestFeed_outputs, mergedOutputs, mergedOutputs, known, known, same]

theorem ingestFeeds_reserved (pages : List BlockPage) :
    (db.ingestFeeds scanner pages).reserved = db.reserved := by
  induction pages generalizing db with
  | nil => rfl
  | cons page rest ih => exact ih

/-- Some page creates the commitment for the wallet, no earlier one does, and neither that
page nor a later one consumes it. -/
def LeftOpen (scanner : Scanner P) (pages : List BlockPage) (commit : Commitment) : Prop :=
  ∃ before page after, pages = before ++ page :: after ∧ Creates scanner page.blocks commit ∧
    (∀ earlier ∈ before, ¬Creates scanner earlier.blocks commit) ∧
    ∀ later ∈ page :: after, commit ∉ later.consumed

theorem leftOpen_nil {commit : Commitment} : ¬LeftOpen scanner [] commit := by
  rintro ⟨before, page, after, empty, _⟩
  simp at empty

theorem leftOpen_cons {page : BlockPage} {rest : List BlockPage} {commit : Commitment} :
    LeftOpen scanner (page :: rest) commit ↔
      (Creates scanner page.blocks commit ∧ ∀ later ∈ page :: rest, commit ∉ later.consumed) ∨
        (¬Creates scanner page.blocks commit ∧ LeftOpen scanner rest commit) := by
  constructor
  · rintro ⟨before, creator, after, split, creates, first, open'⟩
    cases before with
    | nil =>
        cases split
        exact .inl ⟨creates, open'⟩
    | cons head before =>
        cases split
        exact .inr ⟨first _ List.mem_cons_self, before, creator, after, rfl, creates,
          fun earlier member => first earlier (List.mem_cons_of_mem _ member), open'⟩
  · rintro (⟨creates, open'⟩ | ⟨skips, before, creator, after, rfl, creates, first, open'⟩)
    · exact ⟨[], page, rest, rfl, creates, by simp, open'⟩
    · refine ⟨page :: before, creator, after, rfl, creates, ?_, open'⟩
      intro earlier member
      cases List.mem_cons.mp member with
      | inl here => exact here ▸ skips
      | inr later => exact first earlier later

/-- The unspent outputs after all pages. -/
theorem unspent_ingestFeeds {pages : List BlockPage} {commit : Commitment} :
    Unspent (db.ingestFeeds scanner pages).outputs commit ↔
      (Unspent db.outputs commit ∧ ∀ page ∈ pages, commit ∉ page.consumed) ∨
        (commit ∉ db.known ∧ LeftOpen scanner pages commit) := by
  induction pages generalizing db with
  | nil => simp [leftOpen_nil]
  | cons page rest ih =>
      have known' : commit ∈ (db.ingestFeed scanner page).known ↔
          commit ∈ db.known ∨ Creates scanner page.blocks commit := by
        rw [known, ingestFeed_outputs, mem_known_mergedOutputs]
      rw [ingestFeeds_cons, ih, ingestFeed_outputs, unspent_mergedOutputs, leftOpen_cons, known']
      simp only [List.forall_mem_cons, BlockPage.consumed]
      tauto

/-! ## The sends after all pages -/

/-- What the pages make of a send. -/
structure SentAfter (pages : List BlockPage) (before after : HistoryEntry) : Prop where
  sent : after.direction = .sent
  txid : after.txid = before.txid
  spentCommits : after.spentCommits = before.spentCommits
  failed : after.failed = before.failed
  /-- A page that covers a send confirms it, unless it had failed. -/
  unconfirmed : after.height = none ↔ before.height = none ∧
    (before.failed ∨ ∀ page ∈ pages, ¬Covered page.consumed before)

theorem sentAfter_feed (ok : HistoryOk db.history) {entry : HistoryEntry}
    (member : entry ∈ db.history) (sent : entry.direction = .sent) (page : BlockPage) :
    SentAfter [page] entry (confirmEntry (db.pageConfirmations page.feed) entry) where
  sent := by simpa using sent
  txid := by simp
  spentCommits := by simp
  failed := by simp
  unconfirmed := by
    have settles := db.pageConfirmations_settles page.feed
    rw [settles.height_eq_none ok member sent, BlockPage.feed, scanFeed_spent]
    simp [BlockPage.consumed, Block.consumed]

theorem SentAfter.trans {page : BlockPage} {rest : List BlockPage}
    {before between after : HistoryEntry} (first : SentAfter [page] before between)
    (second : SentAfter rest between after) : SentAfter (page :: rest) before after where
  sent := second.sent
  txid := second.txid.trans first.txid
  spentCommits := second.spentCommits.trans first.spentCommits
  failed := second.failed.trans first.failed
  unconfirmed := by
    have same (spent : List Commitment) : Covered spent between ↔ Covered spent before := by
      rw [Covered, Covered, first.spentCommits]
    rw [second.unconfirmed, first.unconfirmed, first.failed]
    simp only [same, List.forall_mem_cons, List.not_mem_nil, false_imp_iff]
    tauto

/-- Every send before the pages is there after them. -/
theorem exists_sentAfter (scanner : Scanner P) (ok : HistoryOk db.history) {entry : HistoryEntry}
    (member : entry ∈ db.history) (sent : entry.direction = .sent) (pages : List BlockPage) :
    ∃ after ∈ (db.ingestFeeds scanner pages).history, SentAfter pages entry after := by
  induction pages generalizing db entry with
  | nil => exact ⟨entry, member, sent, rfl, rfl, rfl, by simp⟩
  | cons page rest ih =>
      have step := sentAfter_feed ok member sent page
      have kept : confirmEntry (db.pageConfirmations page.feed) entry ∈
          (db.ingestFeed scanner page).history :=
        (mem_ingestScanPage_history ok step.sent).mpr ⟨entry, member, rfl⟩
      have ok' : HistoryOk (db.ingestFeed scanner page).history :=
        ok.ingestScanPage scanner page.feed
      obtain ⟨after, afterMember, later⟩ := ih ok' kept step.sent
      exact ⟨after, afterMember, step.trans later⟩

/-- Every send after the pages was there before them. -/
theorem exists_sentBefore (ok : HistoryOk db.history) {pages : List BlockPage}
    {after : HistoryEntry} (member : after ∈ (db.ingestFeeds scanner pages).history)
    (sent : after.direction = .sent) :
    ∃ before ∈ db.history, before.direction = .sent ∧ SentAfter pages before after := by
  induction pages generalizing db with
  | nil => exact ⟨after, member, sent, sent, rfl, rfl, rfl, by simp⟩
  | cons page rest ih =>
      have ok' : HistoryOk (db.ingestFeed scanner page).history :=
        ok.ingestScanPage scanner page.feed
      obtain ⟨between, betweenMember, betweenSent, later⟩ := ih ok' member
      obtain ⟨before, beforeMember, rfl⟩ :=
        (mem_ingestScanPage_history ok betweenSent).mp betweenMember
      have beforeSent : before.direction = .sent := by simpa using betweenSent
      exact ⟨before, beforeMember, beforeSent,
        (sentAfter_feed ok beforeMember beforeSent page).trans later⟩

/-! ## The rescan -/

/-- All inputs of a send, of which there is one at least, were consumed in one block. -/
def ConsumedTogether (pages : List BlockPage) (entry : HistoryEntry) : Prop :=
  ∃ page ∈ pages, ∃ block ∈ page.blocks, Covered block.body.inputCommits entry

theorem ConsumedTogether.covered {pages : List BlockPage} {entry : HistoryEntry}
    (together : ConsumedTogether pages entry) : ∃ page ∈ pages, Covered page.consumed entry := by
  obtain ⟨page, pageMember, block, blockMember, recorded, consumed⟩ := together
  refine ⟨page, pageMember, recorded, ?_⟩
  intro commit member
  exact List.mem_flatMap.mpr ⟨block, blockMember, consumed commit member⟩

/-- A recorded send that did not fail. -/
def LiveSend (db : WalletFile) (entry : HistoryEntry) : Prop :=
  entry ∈ db.history ∧ entry.direction = .sent ∧ entry.failed = false

/-- The state that `beginLightRescan` leaves. -/
def rescanned (db : WalletFile) : WalletFile :=
  { db with
    outputs := []
    history := (db.history.filter fun entry => entry.direction == .sent).map
      fun entry => { entry with height := none, quarantined := true }
    scannedTo := db.birthHeight
    scannedTip := [] }

/-- What the claim of recovery says of one send after the pages. -/
def Resolved (pages : List BlockPage) (final : WalletFile) (entry : HistoryEntry) : Prop :=
  ∃ after ∈ final.history, after.direction = .sent ∧ after.txid = entry.txid ∧
    after.spentCommits = entry.spentCommits ∧ after.failed = false ∧
    (ConsumedTogether pages entry → after.height ≠ none) ∧
    (¬ConsumedTogether pages entry → ∀ output ∈ final.outputs,
      output.commit ∈ entry.spentCommits → ∀ tipHeight maturity,
        final.isSelectable tipHeight maturity output = false)

/-- No send failed before. -/
def NoFailedSend (db : WalletFile) : Prop :=
  ∀ entry ∈ db.history, entry.direction = .sent → entry.failed = false

/-- No page settles a send whose inputs went in several blocks while the chain leaves one
of these inputs open, unless a send that no page settles claims it. -/
def NoReopening (scanner : Scanner P) (db : WalletFile) (pages : List BlockPage) : Prop :=
  ∀ entry, db.LiveSend entry → ¬ConsumedTogether pages entry →
    (∃ page ∈ pages, Covered page.consumed entry) →
    ∀ commit ∈ entry.spentCommits, LeftOpen scanner pages commit →
      ∃ other, db.LiveSend other ∧ commit ∈ other.spentCommits ∧
        ∀ page ∈ pages, ¬Covered page.consumed other

theorem mem_rescanned_history {db : WalletFile} {entry : HistoryEntry} :
    entry ∈ db.rescanned.history ↔ ∃ before ∈ db.history, before.direction = .sent ∧
      { before with height := none, quarantined := true } = entry := by
  simp [rescanned, and_assoc]

/-- Without observations of a chain, a wallet may take its first anchor exactly if all
its entries are withheld sends that wait. -/
theorem needsLightRebuild_of_start (start : db.scannedTo = db.birthHeight)
    (unanchored : db.scannedTip = []) (empty : db.outputs = []) (unreserved : db.reserved = []) :
    db.needsLightRebuild = false ↔
      ∀ entry ∈ db.history, entry.direction = .sent ∧ entry.isPending ∧ entry.quarantined := by
  cases history : db.history with
  | nil => simp [needsLightRebuild, hasScannedHistory, *]
  | cons entry rest => simp [needsLightRebuild, hasScannedHistory, and_assoc, *]

/-- The rescan permits a first anchor exactly if no send had failed. -/
theorem rescanned_needsLightRebuild (unreserved : db.reserved = []) :
    db.rescanned.needsLightRebuild = false ↔ db.NoFailedSend := by
  rw [@needsLightRebuild_of_start db.rescanned rfl rfl rfl unreserved]
  constructor
  · intro each entry member sent
    have pending := (each _ (mem_rescanned_history.mpr ⟨entry, member, sent, rfl⟩)).2.1
    simpa [HistoryEntry.isPending] using pending
  · intro alive entry member
    obtain ⟨before, beforeMember, sent, rfl⟩ := mem_rescanned_history.mp member
    simp [HistoryEntry.isPending, sent, alive before beforeMember sent]

/-- An output is out of reach of every selection. -/
theorem forall_isSelectable_eq_false (unreserved : db.reserved = []) {output : OwnedOutput} :
    (∀ tipHeight maturity, db.isSelectable tipHeight maturity output = false) ↔
      (output.spent = false → output.commit ∈ db.pendingInputCommits) := by
  constructor
  · intro never unspent
    have withheld := never 0 0
    simpa [isSelectable, unspent, isReserved, unreserved] using withheld
  · intro claimed tipHeight maturity
    cases spent : output.spent with
    | true => simp [isSelectable, spent]
    | false => simp [isSelectable, claimed spent]

/-- The claims of the pending sends after the pages, by the sends before them. -/
theorem mem_pendingInputCommits_ingestFeeds (ok : HistoryOk db.history)
    {pages : List BlockPage} {commit : Commitment} :
    commit ∈ (db.rescanned.ingestFeeds scanner pages).pendingInputCommits ↔
      ∃ entry, db.LiveSend entry ∧ commit ∈ entry.spentCommits ∧
        ∀ page ∈ pages, ¬Covered page.consumed entry := by
  have ok' : HistoryOk db.rescanned.history := ok.rescanned
  rw [mem_pendingInputCommits]
  constructor
  · rintro ⟨after, afterMember, pending, claims⟩
    simp only [HistoryEntry.isPendingSend, HistoryEntry.isPending, Bool.and_eq_true, beq_iff_eq,
      Option.isNone_iff_eq_none, Bool.not_eq_true'] at pending
    obtain ⟨retained, retainedMember, _, settled⟩ :=
      exists_sentBefore ok' afterMember pending.1
    obtain ⟨entry, entryMember, sent, rfl⟩ := mem_rescanned_history.mp retainedMember
    have alive : entry.failed = false := settled.failed.symm.trans pending.2.2
    have uncovered := (settled.unconfirmed.mp pending.2.1).2
    refine ⟨entry, ⟨entryMember, sent, alive⟩, ?_, ?_⟩
    · exact settled.spentCommits ▸ claims
    · exact uncovered.resolve_left (by simp [alive])
  · rintro ⟨entry, ⟨entryMember, sent, alive⟩, claims, uncovered⟩
    obtain ⟨after, afterMember, settled⟩ := exists_sentAfter scanner ok'
      (mem_rescanned_history.mpr ⟨entry, entryMember, sent, rfl⟩) sent pages
    refine ⟨after, afterMember, ?_, ?_⟩
    · have pending := settled.unconfirmed.mpr ⟨rfl, .inr uncovered⟩
      simp [HistoryEntry.isPendingSend, HistoryEntry.isPending, settled.sent, pending,
        settled.failed, alive]
    · rw [settled.spentCommits]
      exact claims

end WalletFile

namespace Wallet

variable {S : Sealing} {C : TransferCrypto P} {wallet : Wallet P} {pages : List BlockPage}

/-- A rescan that begins finds no reservations and leaves `rescanned`. -/
theorem beginLightRescan_eq_ok {after : Wallet P}
    (began : wallet.beginLightRescan = (.ok (), after)) :
    wallet.storage = .memory ∧ wallet.db.reserved = [] ∧
      after = { wallet with db := wallet.db.rescanned } := by
  unfold beginLightRescan at began
  split at began
  · simp at began
  · next memory =>
      split at began
      · simp at began
      · next resolved =>
          simp only [Prod.mk.injEq] at began
          simp only [persist, bne_iff_ne, ne_eq, not_not] at memory
          simp only [not_not, List.isEmpty_iff] at resolved
          exact ⟨memory, resolved.2, began.2.symm⟩

/-- A wallet that may take its first anchor accepts the pages from its birth height on. -/
theorem feedPages_of_start (start : Wallet P) (memory : start.storage = .memory)
    (atBirth : start.db.scannedTo = start.db.birthHeight) (unanchored : start.db.scannedTip = [])
    (rebuilt : start.db.needsLightRebuild = false)
    (starts : ∀ page ∈ pages.head?, page.first.height = start.db.birthHeight)
    (valid : ∀ page ∈ pages, page.Valid P) (formed : ∀ page ∈ pages, page.WellFormed P)
    (overlapping : BlockPage.Overlapping pages) :
    start.feedPages S pages =
      some { start with db := start.db.ingestFeeds (start.scanner S) pages } := by
  apply feedPages_eq memory _ valid formed overlapping
  intro page atHead
  have position := starts page atHead
  refine ⟨?_, rebuilt, ?_, position ▸ UInt64.le_refl _⟩
  · rw [WalletFile.scanFrom_of_le (atBirth ▸ UInt64.le_refl _)]
    exact position
  · rw [unanchored, if_pos (by rfl)]
    exact position

/-- The rebuild succeeds on these pages: every page is accepted, the outputs are those of
a fresh wallet, and every send is resolved. -/
structure Recovers (S : Sealing) (wallet after : Wallet P) (pages : List BlockPage) : Prop where
  rebuilt : after.db.needsLightRebuild = false
  accepted : ∃ final, after.feedPages S pages = some final ∧
    (∃ fresh, (inMemory wallet.network wallet.keys wallet.db.birthHeight).feedPages S pages =
        some fresh ∧ final.db.outputs = fresh.db.outputs) ∧
    ∀ entry, wallet.db.LiveSend entry → WalletFile.Resolved pages final.db entry

theorem recovers_iff (ok : WalletFile.HistoryOk wallet.db.history) {after : Wallet P}
    (began : wallet.beginLightRescan = (.ok (), after))
    (starts : ∀ page ∈ pages.head?, page.first.height = wallet.db.birthHeight)
    (valid : ∀ page ∈ pages, page.Valid P) (formed : ∀ page ∈ pages, page.WellFormed P)
    (overlapping : BlockPage.Overlapping pages) :
    wallet.Recovers S after pages ↔
      wallet.db.NoFailedSend ∧ wallet.db.NoReopening (wallet.scanner S) pages := by
  obtain ⟨memory, unreserved, rfl⟩ := beginLightRescan_eq_ok began
  have unreserved' : (wallet.db.rescanned.ingestFeeds (wallet.scanner S) pages).reserved = [] := by
    rw [WalletFile.ingestFeeds_reserved]
    exact unreserved
  have open' (commit : Commitment) :
      WalletFile.Unspent (wallet.db.rescanned.ingestFeeds (wallet.scanner S) pages).outputs
        commit ↔ WalletFile.LeftOpen (wallet.scanner S) pages commit := by
    rw [WalletFile.unspent_ingestFeeds]
    simp [WalletFile.rescanned, WalletFile.Unspent, WalletFile.known]
  have feeds (rebuilt : wallet.db.rescanned.needsLightRebuild = false) :
      ({ wallet with db := wallet.db.rescanned } : Wallet P).feedPages S pages =
        some { wallet with
          db := wallet.db.rescanned.ingestFeeds (wallet.scanner S) pages } :=
    feedPages_of_start { wallet with db := wallet.db.rescanned } memory rfl rfl rebuilt starts
      valid formed overlapping
  have fresh : (inMemory wallet.network wallet.keys
      wallet.db.birthHeight).db.needsLightRebuild = false := by
    simp [inMemory, WalletFile.needsLightRebuild, WalletFile.hasScannedHistory]
  have freshFeeds := feedPages_of_start (S := S)
    (inMemory wallet.network wallet.keys wallet.db.birthHeight) rfl rfl rfl fresh starts valid
    formed overlapping
  constructor
  · rintro ⟨rebuilt, final, accepted, _, resolved⟩
    rw [feeds rebuilt, Option.some.injEq] at accepted
    subst accepted
    refine ⟨(WalletFile.rescanned_needsLightRebuild unreserved).mp rebuilt, ?_⟩
    intro entry live apart _ commit claims leftOpen
    obtain ⟨_, _, _, _, _, _, _, withheld⟩ := resolved entry live
    obtain ⟨output, member, rfl, unspent⟩ := (open' commit).mpr leftOpen
    exact (WalletFile.mem_pendingInputCommits_ingestFeeds ok).mp
      ((WalletFile.forall_isSelectable_eq_false unreserved').mp
        (withheld apart output member claims) unspent)
  · rintro ⟨alive, closed⟩
    have rebuilt := (WalletFile.rescanned_needsLightRebuild unreserved).mpr alive
    refine ⟨rebuilt, _, feeds rebuilt, ⟨_, freshFeeds, ?_⟩, ?_⟩
    · exact @WalletFile.ingestFeeds_outputs_congr _ (wallet.scanner S) wallet.db.rescanned
        (inMemory wallet.network wallet.keys wallet.db.birthHeight).db rfl pages
    · intro entry live
      obtain ⟨member, sent, notFailed⟩ := live
      obtain ⟨settled, settledMember, sentAfter⟩ := WalletFile.exists_sentAfter
        (wallet.scanner S) ok.rescanned
        (WalletFile.mem_rescanned_history.mpr ⟨entry, member, sent, rfl⟩) sent pages
      refine ⟨settled, settledMember, sentAfter.sent, sentAfter.txid, sentAfter.spentCommits,
        sentAfter.failed.trans notFailed, ?_, ?_⟩
      · intro together unconfirmed
        obtain ⟨page, pageMember, covered⟩ := together.covered
        have uncovered := (sentAfter.unconfirmed.mp unconfirmed).2.resolve_left
          (by simp [notFailed])
        exact uncovered page pageMember covered
      · intro apart output outputMember claims
        rw [WalletFile.forall_isSelectable_eq_false unreserved']
        intro unspent
        rw [WalletFile.mem_pendingInputCommits_ingestFeeds ok]
        by_cases covered : ∃ page ∈ pages, WalletFile.Covered page.consumed entry
        · exact closed entry ⟨member, sent, notFailed⟩ apart covered output.commit claims
            ((open' _).mp ⟨output, outputMember, rfl, unspent⟩)
        · exact ⟨entry, ⟨member, sent, notFailed⟩, claims,
            fun page pageMember settles => covered ⟨page, pageMember, settles⟩⟩

/-- Take any in-memory wallet that grew from a fresh one and began a light rescan, and
any pages of one chain from its birth height on.  The rebuild recovers exactly when no
send had failed and no page reopens an input of a send that it settles. -/
theorem lightRebuild_recovers_iff (grown : wallet.Grown S C) {after : Wallet P}
    (began : wallet.beginLightRescan = (.ok (), after))
    (starts : ∀ page ∈ pages.head?, page.first.height = wallet.db.birthHeight)
    (valid : ∀ page ∈ pages, page.Valid P) (formed : ∀ page ∈ pages, page.WellFormed P)
    (overlapping : BlockPage.Overlapping pages) :
    wallet.Recovers S after pages ↔
      wallet.db.NoFailedSend ∧ wallet.db.NoReopening (wallet.scanner S) pages :=
  recovers_iff grown.historyOk began starts valid formed overlapping

end Wallet

namespace Sample

/-- Scan the first block and pay out of its subsidy. -/
def paymentOps : List (WalletOp primitives) :=
  [.scanBlocks [ownedBlock0], .pay draws keys.address 200 1 [] 1000 100 5]

def paid : Wallet primitives :=
  GuardedRun.run (Wallet.step sealing crypto) (Wallet.inMemory .devnet keys 0) paymentOps

/-- The same, and the payment is released again. -/
def releaseOps : List (WalletOp primitives) :=
  paymentOps ++ [.releaseSends (paid.db.pendingSends.map Prod.fst) paid.db.pendingInputCommits]

def released : Wallet primitives :=
  GuardedRun.run (Wallet.step sealing crypto) (Wallet.inMemory .devnet keys 0) releaseOps

end Sample

namespace Wallet

/-- A wallet with a pending payment recovers on the page that paid it. -/
theorem lightRebuild_recovers_paid :
    Sample.paid.Recovers Sample.sealing Sample.paid.beginLightRescan.2
      [⟨Sample.ownedBlock0, []⟩] := by
  have began : Sample.paid.beginLightRescan.1 = .ok () := by decide +kernel
  have alive : Sample.paid.db.NoFailedSend := by
    unfold WalletFile.NoFailedSend
    decide +kernel
  have nothing : (⟨Sample.ownedBlock0, []⟩ : BlockPage).consumed = [] := by decide +kernel
  have closed : Sample.paid.db.NoReopening (Sample.paid.scanner Sample.sealing)
      [⟨Sample.ownedBlock0, []⟩] := by
    intro entry _ _ settled
    obtain ⟨page, member, recorded, covered⟩ := settled
    rw [List.mem_singleton.mp member, nothing] at covered
    obtain ⟨commit, claims⟩ := List.exists_mem_of_ne_nil _ recorded
    exact absurd (covered commit claims) List.not_mem_nil
  have start : Sample.paid.beginLightRescan = (.ok (), Sample.paid.beginLightRescan.2) :=
    Guard.eq_of_fst began
  have starts : ∀ page ∈ [(⟨Sample.ownedBlock0, []⟩ : BlockPage)].head?,
      page.first.height = Sample.paid.db.birthHeight := by
    decide +kernel
  have valid : ∀ page ∈ [(⟨Sample.ownedBlock0, []⟩ : BlockPage)],
      page.Valid Sample.primitives := by
    decide +kernel
  have formed : ∀ page ∈ [(⟨Sample.ownedBlock0, []⟩ : BlockPage)],
      page.WellFormed Sample.primitives := by
    decide +kernel
  have grown : Sample.paid.Grown Sample.sealing Sample.crypto :=
    ⟨.devnet, Sample.keys, 0, Sample.paymentOps, rfl⟩
  exact (@lightRebuild_recovers_iff _ Sample.sealing Sample.crypto Sample.paid
    [⟨Sample.ownedBlock0, []⟩] grown Sample.paid.beginLightRescan.2 start starts valid formed
    (.singleton _)).mpr ⟨alive, closed⟩

/-- A wallet with a released payment begins its rescan, and then takes no first anchor on
the chain that the ledger accepted. -/
theorem rescan_refuses_released :
    (LedgerState.forNetwork Sample.primitives .devnet).Accepts Sample.ownedChain1.proofCtx
        Sample.ownedChain1.firstHeight Sample.ownedChain1.blocks ∧
      Sample.ownedChain1.blocks = [Sample.ownedBlock0] ∧
      Sample.released.beginLightRescan.1 = .ok () ∧
      Sample.released.beginLightRescan.2.db.needsLightRebuild = true ∧
      (Sample.released.beginLightRescan.2.feedPage Sample.sealing ⟨Sample.ownedBlock0, []⟩).1 =
        .error .historyWithoutAnchor := by
  decide +kernel

end Wallet

end Nightfall
