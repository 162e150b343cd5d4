import Nightfall.Wallet.Agreement
import Nightfall.Wallet.Rebuild

/-!
# Scanning a run page by page

A run is cut into pages, each of which starts with the last block of the page before.
`Scanned` is what holds after every page, and `ScansTo` what the pages add.
-/

namespace Nightfall

variable {P : Primitives}

namespace BlockPage

/-- The run with the blocks of an overlapping page behind it. -/
def extend (run page : BlockPage) : BlockPage :=
  ⟨run.first, run.rest ++ page.rest⟩

/-- The run that pages are cut from. -/
def join (page : BlockPage) (pages : List BlockPage) : BlockPage :=
  pages.foldl extend page

variable {run page : BlockPage}

@[simp] theorem join_nil : run.join [] = run := rfl

@[simp] theorem join_cons (rest : List BlockPage) :
    run.join (page :: rest) = (run.extend page).join rest := rfl

@[simp] theorem extend_first : (run.extend page).first = run.first := rfl

@[simp] theorem extend_blocks : (run.extend page).blocks = run.blocks ++ page.rest := rfl

@[simp] theorem join_first (pages : List BlockPage) : (run.join pages).first = run.first := by
  induction pages generalizing run with
  | nil => rfl
  | cons page rest ih => rw [join_cons, ih, extend_first]

theorem join_blocks (pages : List BlockPage) :
    (run.join pages).blocks = run.blocks ++ pages.flatMap BlockPage.rest := by
  induction pages generalizing run with
  | nil => simp
  | cons page rest ih => simp [ih]

theorem last_mem : run.last ∈ run.blocks :=
  List.getLast_mem _

theorem blocks_eq_append : run.blocks = run.blocks.dropLast ++ [run.last] :=
  (List.dropLast_append_getLast _).symm

theorem blocks_of_overlap (overlaps : page.first = run.last) :
    page.blocks = run.last :: page.rest := by
  rw [blocks, overlaps]

/-- The part of an extended run that the page shows. -/
theorem extend_blocks_eq (overlaps : page.first = run.last) :
    (run.extend page).blocks = run.blocks.dropLast ++ page.blocks := by
  rw [extend_blocks, blocks_of_overlap overlaps]
  nth_rewrite 1 [blocks_eq_append]
  simp

theorem getLast?_blocks : run.blocks.getLast? = some run.last :=
  List.getLast?_eq_some_getLast _

theorem extend_last (overlaps : page.first = run.last) : (run.extend page).last = page.last := by
  apply Option.some.inj
  rw [← getLast?_blocks, extend_blocks_eq overlaps, List.getLast?_append, getLast?_blocks,
    Option.some_or]

theorem linked_of_extend (overlaps : page.first = run.last)
    (linked : Block.Linked P (run.extend page).blocks) :
    Block.Linked P run.blocks ∧ Block.Linked P page.blocks := by
  constructor
  · rw [extend_blocks] at linked
    exact List.IsChain.left_of_append linked
  · rw [extend_blocks_eq overlaps] at linked
    exact List.IsChain.right_of_append linked

theorem linked_of_join {pages : List BlockPage}
    (linked : Block.Linked P (run.join pages).blocks) : Block.Linked P run.blocks := by
  rw [join_blocks] at linked
  exact List.IsChain.left_of_append linked

theorem created_of_join {pages : List BlockPage}
    (nodup : (Block.created (run.join pages).blocks).Nodup) :
    (Block.created run.blocks).Nodup := by
  rw [join_blocks, Block.created_append, List.nodup_append] at nodup
  exact nodup.1

theorem created_of_extend (nodup : (Block.created (run.extend page).blocks).Nodup) :
    (Block.created run.blocks).Nodup ∧ (Block.created page.rest).Nodup ∧
      ∀ commit ∈ Block.created page.rest, commit ∉ Block.created run.blocks := by
  rw [extend_blocks, Block.created_append, List.nodup_append] at nodup
  exact ⟨nodup.1, nodup.2.1, fun commit later before => nodup.2.2 commit before commit later rfl⟩

end BlockPage

namespace WalletFile

variable {scanner : Scanner P} {db : WalletFile}

/-! ## Commitments of a run -/

/-- The commitments of the outputs that a fresh scan of the blocks finds. -/
def ownedCommits (scanner : Scanner P) (blocks : List Block) : List Commitment :=
  (blocks.flatMap (ownedOf scanner [])).map OwnedOutput.commit

theorem mem_ownedCommits {blocks : List Block} {commit : Commitment} :
    commit ∈ ownedCommits scanner blocks ↔ Creates scanner blocks commit := by
  rw [ownedCommits, List.mem_map, mem_ownedOf_commit]
  simp

theorem creates_append {front back : List Block} {commit : Commitment} :
    Creates scanner (front ++ back) commit ↔
      Creates scanner front commit ∨ Creates scanner back commit := by
  simp only [Creates, List.mem_append]
  constructor
  · rintro ⟨block, inFront | inBack, created⟩
    · exact .inl ⟨block, inFront, created⟩
    · exact .inr ⟨block, inBack, created⟩
  · rintro (⟨block, member, created⟩ | ⟨block, member, created⟩)
    · exact ⟨block, .inl member, created⟩
    · exact ⟨block, .inr member, created⟩

theorem Creates.mono {blocks more : List Block} {commit : Commitment}
    (creates : Creates scanner blocks commit) (subset : blocks ⊆ more) :
    Creates scanner more commit := by
  obtain ⟨block, member, created⟩ := creates
  exact ⟨block, subset member, created⟩

theorem Creates.mem_created {blocks : List Block} {commit : Commitment}
    (creates : Creates scanner blocks commit) : commit ∈ Block.created blocks := by
  obtain ⟨block, member, output, outputMember, rfl, _⟩ := creates
  exact List.mem_flatMap.mpr ⟨block, member, List.mem_map_of_mem outputMember⟩

theorem discovered_congr {known others : List Commitment} {block : Block}
    (same : ∀ commit ∈ block.body.outputCommits, commit ∈ known ↔ commit ∈ others) :
    discovered scanner known block = discovered scanner others block := by
  apply List.filterMap_congr
  intro output member
  rw [if_congr (same output.commit (List.mem_map_of_mem member)) rfl rfl]

theorem ownedOf_congr {known others : List Commitment} {block : Block}
    (same : ∀ commit ∈ block.body.outputCommits, commit ∈ known ↔ commit ∈ others) :
    ownedOf scanner known block = ownedOf scanner others block := by
  rw [ownedOf, ownedOf, discovered_congr same]

theorem incomingOf_congr {known others : List Commitment}
    (same : ∀ commit, commit ∈ known ↔ commit ∈ others) (block : Block) :
    incomingOf scanner known block = incomingOf scanner others block := by
  have spends : spendsKnown known block = spendsKnown others block := by
    simp [spendsKnown, same]
  rw [incomingOf, incomingOf, discovered_congr fun commit _ => same commit, spends]

/-- A block whose owned outputs are all known brings nothing. -/
theorem discovered_eq_nil {known : List Commitment} {block : Block}
    (all : ∀ commit, Creates scanner [block] commit → commit ∈ known) :
    discovered scanner known block = [] := by
  apply List.eq_nil_iff_forall_not_mem.mpr
  rintro ⟨output, found⟩ member
  obtain ⟨outputMember, unknown, scanned⟩ := mem_discovered.mp member
  exact unknown (all _ ⟨block, List.mem_singleton_self _, output, outputMember, rfl,
    by simp [scanned]⟩)

/-! ## Settling entry by entry -/

/-- The entry after a scan of the blocks, if it is a send that waits. -/
def settleEntry (blocks : List Block) (entry : HistoryEntry) : HistoryEntry :=
  match entry.height, settlingBlock [] entry blocks with
  | none, some block =>
      { entry with height := some block.height, timestamp := block.header.timestampUnix }
  | _, _ => entry

theorem settleEntry_of_settled {blocks : List Block} {entry : HistoryEntry}
    (settled : entry.height ≠ none) : settleEntry blocks entry = entry := by
  cases height : entry.height with
  | none => exact absurd height settled
  | some _ => simp [settleEntry, height]

/-- Without failed sends, a scan confirms each entry on its own. -/
theorem confirmEntry_eq_settleEntry (ok : HistoryOk db.history) {entry : HistoryEntry}
    (member : entry ∈ db.history) (alive : entry.failed = false) (blocks : List Block) :
    confirmEntry (db.confirmations blocks) entry = settleEntry blocks entry := by
  cases height : entry.height with
  | some _ =>
      have settled : entry.height ≠ none := by simp [height]
      rw [confirmEntry_of_settled _ _ settled, settleEntry_of_settled settled]
  | none =>
      have pending : entry.isPendingSend := by
        simp [HistoryEntry.isPendingSend, HistoryEntry.isPending, height, alive,
          ok.unconfirmed entry member height]
      have confirmation := confirmationOf_confirmations ok member pending blocks
      rw [confirmationOf] at confirmation
      rw [confirmEntry, if_pos (by simp [height]), confirmation]
      cases settles : settlingBlock [] entry blocks with
      | none => simp [settleEntry, settles]
      | some block => simp [settleEntry, height, settles]

/-! ## Scans that reconcile nothing away -/

/-- A reconciliation with these blocks would change neither an output nor a send. -/
structure Undisturbed (scanner : Scanner P) (db : WalletFile) (blocks : List Block) : Prop where
  retained : db.reconciles scanner blocks false → db.Retained blocks
  confirmed : db.reconciles scanner blocks false →
    ∀ entry ∈ db.history, unconfirm (Block.consumed blocks) entry = entry

theorem Undisturbed.outputs {blocks : List Block} (undisturbed : Undisturbed scanner db blocks) :
    (db.scanBlocksInner scanner blocks false).1.outputs = db.mergedOutputs scanner blocks := by
  rw [scanBlocksInner_outputs]
  split
  · next reconciled => exact reconcileWith_outputs_eq_iff.mpr (undisturbed.retained reconciled)
  · rfl

theorem Undisturbed.settledHistory {blocks : List Block}
    (undisturbed : Undisturbed scanner db blocks) :
    db.settledHistory scanner blocks false = db.history := by
  by_cases reconciled : db.reconciles scanner blocks false
  · rw [(undisturbed.retained reconciled).settledHistory reconciled]
    calc db.history.map (unconfirm (Block.consumed blocks)) = db.history.map id :=
          List.map_congr_left (undisturbed.confirmed reconciled)
      _ = db.history := List.map_id _
  · rw [WalletFile.settledHistory, if_neg reconciled]

/-- Every receipt is about an output that the wallet knows. -/
def ReceiptsKnown (db : WalletFile) : Prop :=
  ∀ entry ∈ db.history, entry.direction ≠ .sent → ∃ commit ∈ db.known, entry.txid = commit.toHex

theorem map_filterMap_sublist {α β γ : Type*} {choose : α → Option β} {left : β → γ}
    {right : α → γ} (agree : ∀ item chosen, choose item = some chosen → left chosen = right item)
    (items : List α) : ((items.filterMap choose).map left).Sublist (items.map right) := by
  induction items with
  | nil => simp
  | cons item rest ih =>
      rw [List.filterMap_cons]
      split
      · exact ih.trans (List.sublist_cons_self _ _)
      · next chosen picked =>
          rw [List.map_cons, List.map_cons, agree item chosen picked]
          exact ih.cons_cons _

theorem discovered_commits_sublist (known : List Commitment) (block : Block) :
    ((discovered scanner known block).map fun (_, found) => found.commit).Sublist
      block.body.outputCommits := by
  apply map_filterMap_sublist
  intro output chosen picked
  split at picked
  · simp at picked
  · obtain ⟨found, scanned, rfl⟩ := Option.map_eq_some_iff.mp picked
    exact scanner.commit_of_scanOutput scanned

theorem incomingOf_txids_sublist (scanner : Scanner P) (known : List Commitment) (blocks : List Block) :
    ((blocks.flatMap (incomingOf scanner known)).map HistoryEntry.txid).Sublist
      ((Block.created blocks).map Bytes32.toHex) := by
  rw [List.map_flatMap, Block.created, List.map_flatMap]
  apply List.Sublist.flatMap_right
  intro block _
  have listed : (incomingOf scanner known block).map HistoryEntry.txid =
      (((discovered scanner known block).filter fun (output, _) =>
        output.features.isCoinbase || !spendsKnown known block).map
          fun (_, found) => found.commit).map Bytes32.toHex := by
    simp only [incomingOf, List.map_map]
    rfl
  rw [listed]
  exact ((List.filter_sublist.map _).trans (discovered_commits_sublist known block)).map _

theorem ownedOf_commits_sublist (known : List Commitment) (blocks : List Block) :
    ((blocks.flatMap (ownedOf scanner known)).map OwnedOutput.commit).Sublist
      (Block.created blocks) := by
  rw [List.map_flatMap, Block.created]
  apply List.Sublist.flatMap_right
  intro block _
  have listed : (ownedOf scanner known block).map OwnedOutput.commit =
      (discovered scanner known block).map fun (_, found) => found.commit := by
    simp only [ownedOf, List.map_map]
    rfl
  rw [listed]
  exact discovered_commits_sublist known block

/-- The activity list after an undisturbed scan: every entry settled on its own, and
every receipt of the blocks. -/
theorem Undisturbed.history {blocks : List Block} (undisturbed : Undisturbed scanner db blocks)
    (ok : HistoryOk db.history) (alive : ∀ entry ∈ db.history, entry.failed = false)
    (receipts : db.ReceiptsKnown) (nodup : (Block.created blocks).Nodup) :
    (db.scanBlocksInner scanner blocks false).1.history.Perm
      (db.history.map (settleEntry blocks) ++ blocks.flatMap (incomingOf scanner db.known)) := by
  have settled : confirmAll (db.confirmations blocks) db.history =
      db.history.map (settleEntry blocks) := by
    rw [confirmAll_eq_map ok]
    apply List.map_congr_left
    intro entry member
    exact confirmEntry_eq_settleEntry ok member (alive entry member) blocks
  have distinct : ((blocks.flatMap (incomingOf scanner db.known)).map receiptKey).Nodup := by
    have txids := (nodup.map Bytes32.toHex_injective).sublist
      (incomingOf_txids_sublist scanner db.known blocks)
    apply List.Nodup.of_map Prod.fst
    rw [List.map_map]
    exact txids
  have unseen : ∀ entry ∈ blocks.flatMap (incomingOf scanner db.known),
      receiptKey entry ∉ (confirmAll (db.confirmations blocks) db.history).map receiptKey := by
    intro entry member recorded
    rw [confirmAll_eq_map ok, List.map_map] at recorded
    obtain ⟨other, otherMember, same⟩ := List.mem_map.mp recorded
    rw [Function.comp_apply, confirmEntry_receiptKey] at same
    have direction := congrArg (fun key => key.2.1) same
    have txid := congrArg Prod.fst same
    simp only [receiptKey] at direction txid
    have incoming := incomingOf_not_sent scanner db.known blocks entry member
    obtain ⟨commit, known, hex⟩ := receipts other otherMember (direction ▸ incoming)
    obtain ⟨block, _, member⟩ := List.mem_flatMap.mp member
    obtain ⟨output, _, unknown, found, scanned, _, rfl⟩ := mem_incomingOf.mp member
    have sameCommit : commit = output.commit := by
      apply Bytes32.toHex_injective
      rw [← hex, txid, ← scanner.commit_of_scanOutput scanned]
      rfl
    exact unknown (sameCommit ▸ known)
  rw [scanBlocksInner_history, undisturbed.settledHistory, appendNew_eq sameIncoming_iff,
    FirstOfKey.news_eq_self distinct unseen, settled]
  exact List.perm_insertionSort _ _

/-! ## What holds between two pages -/

/-- A wallet that has seen no block and waits for some sends. -/
structure Fresh (db : WalletFile) : Prop where
  outputs : db.outputs = []
  position : db.scannedTo = db.birthHeight
  unanchored : db.scannedTip = []
  pending : ∀ entry ∈ db.history, entry.isPendingSend
  ok : HistoryOk db.history

/-- A wallet that has scanned this run, and nothing else. -/
structure Scanned (scanner : Scanner P) (run : BlockPage) (db : WalletFile) : Prop where
  position : db.scannedTo = run.last.height
  tip : db.scannedTip = (run.last.hash P).toHex
  birth : run.first.height = db.birthHeight
  known : ∀ commit, commit ∈ db.known ↔ Creates scanner run.blocks commit
  spent : ∀ output ∈ db.outputs, output.spent → output.commit ∈ run.consumed
  ok : HistoryOk db.history
  alive : ∀ entry ∈ db.history, entry.failed = false
  receipts : db.ReceiptsKnown
  confirmed : ∀ entry ∈ db.history, entry.direction = .sent → entry.height ≠ none →
    Covered run.consumed entry

section SettleEntry

variable (blocks : List Block) (entry : HistoryEntry)

@[simp] theorem settleEntry_direction :
    (settleEntry blocks entry).direction = entry.direction := by
  unfold settleEntry
  split <;> rfl

@[simp] theorem settleEntry_txid : (settleEntry blocks entry).txid = entry.txid := by
  unfold settleEntry
  split <;> rfl

@[simp] theorem settleEntry_amount : (settleEntry blocks entry).amount = entry.amount := by
  unfold settleEntry
  split <;> rfl

@[simp] theorem settleEntry_failed : (settleEntry blocks entry).failed = entry.failed := by
  unfold settleEntry
  split <;> rfl

@[simp] theorem settleEntry_spentCommits :
    (settleEntry blocks entry).spentCommits = entry.spentCommits := by
  unfold settleEntry
  split <;> rfl

theorem settleEntry_height (unconfirmed : entry.height = none) :
    (settleEntry blocks entry).height = (settlingBlock [] entry blocks).map Block.height := by
  cases settles : settlingBlock [] entry blocks with
  | none => simp [settleEntry, unconfirmed, settles]
  | some block => simp [settleEntry, unconfirmed, settles]

end SettleEntry

theorem covered_of_settleEntry {blocks : List Block} {entry : HistoryEntry}
    (unconfirmed : entry.height = none) (settled : (settleEntry blocks entry).height ≠ none) :
    Covered (Block.consumed blocks) entry := by
  rw [settleEntry_height blocks entry unconfirmed] at settled
  cases settles : settlingBlock [] entry blocks with
  | none => simp [settles] at settled
  | some block => exact covered_of_settlingBlock settles

/-- The anchor after a page is its last block. -/
theorem scanBlocksInner_anchor {page : BlockPage} (linked : Block.Linked P page.blocks)
    (position : db.scanFrom = page.first.height) :
    (db.scanBlocksInner scanner page.blocks false).1.scannedTo = page.last.height ∧
      (db.scanBlocksInner scanner page.blocks false).1.scannedTip =
        (page.last.hash P).toHex := by
  have consecutive := linked.consecutive
  have reached : (db.scanBlocksInner scanner page.blocks false).1.scannedTo =
      page.last.height := by
    rw [scanBlocksInner_scannedTo, if_neg (by simp), position]
    exact Block.Consecutive.foldl_max consecutive (by omega)
  refine ⟨reached, ?_⟩
  rw [scanBlocksInner_scannedTip, reached, anchorAt]
  have split : page.blocks = page.blocks.dropLast ++ page.last :: [] :=
    BlockPage.blocks_eq_append
  have below := (Block.Consecutive.around (split ▸ consecutive)).1
  have missing : page.blocks.dropLast.find? (fun block => block.height = page.last.height) =
      none := by
    rw [List.find?_eq_none]
    intro block member same
    have lower := below block member
    rw [of_decide_eq_true same] at lower
    exact UInt64.lt_irrefl _ lower
  rw [split, List.find?_append, missing]
  simp

/-- After an undisturbed scan the activity list is what it was, settled, and receipts. -/
theorem Undisturbed.mem_history {blocks : List Block}
    (undisturbed : Undisturbed scanner db blocks) (ok : HistoryOk db.history)
    (alive : ∀ entry ∈ db.history, entry.failed = false) (receipts : db.ReceiptsKnown)
    (nodup : (Block.created blocks).Nodup) {entry : HistoryEntry}
    (member : entry ∈ (db.scanBlocksInner scanner blocks false).1.history) :
    (∃ before ∈ db.history, settleEntry blocks before = entry) ∨
      entry ∈ blocks.flatMap (incomingOf scanner db.known) := by
  rw [(undisturbed.history ok alive receipts nodup).mem_iff, List.mem_append,
    List.mem_map] at member
  exact member

/-- An undisturbed scan keeps receipts known and sends alive. -/
theorem Undisturbed.keeps {blocks : List Block} (undisturbed : Undisturbed scanner db blocks)
    (ok : HistoryOk db.history) (alive : ∀ entry ∈ db.history, entry.failed = false)
    (receipts : db.ReceiptsKnown) (nodup : (Block.created blocks).Nodup) :
    (∀ entry ∈ (db.scanBlocksInner scanner blocks false).1.history, entry.failed = false) ∧
      (db.scanBlocksInner scanner blocks false).1.ReceiptsKnown := by
  have known (commit : Commitment) :
      commit ∈ (db.scanBlocksInner scanner blocks false).1.known ↔
        commit ∈ db.known ∨ Creates scanner blocks commit := by
    rw [WalletFile.known, undisturbed.outputs, mem_known_mergedOutputs]
  constructor
  · intro entry member
    cases undisturbed.mem_history ok alive receipts nodup member with
    | inl before =>
        obtain ⟨before, beforeMember, rfl⟩ := before
        simpa using alive before beforeMember
    | inr new =>
        obtain ⟨block, _, member⟩ := List.mem_flatMap.mp new
        obtain ⟨_, _, _, _, _, _, rfl⟩ := mem_incomingOf.mp member
        rfl
  · intro entry member incoming
    cases undisturbed.mem_history ok alive receipts nodup member with
    | inl before =>
        obtain ⟨before, beforeMember, rfl⟩ := before
        obtain ⟨commit, knew, hex⟩ := receipts before beforeMember (by simpa using incoming)
        exact ⟨commit, (known commit).mpr (.inl knew), by simpa using hex⟩
    | inr new =>
        obtain ⟨block, blockMember, member⟩ := List.mem_flatMap.mp new
        obtain ⟨output, outputMember, _, found, scanned, _, rfl⟩ := mem_incomingOf.mp member
        refine ⟨output.commit, (known _).mpr (.inr ⟨block, blockMember, output, outputMember,
          rfl, by simp [scanned]⟩), ?_⟩
        rw [← scanner.commit_of_scanOutput scanned]
        rfl

/-- An undisturbed scan of a page that begins at the scan position leaves the wallet
scanned, if what it knew and had spent is part of the run. -/
theorem Undisturbed.scanned {page run : BlockPage}
    (undisturbed : Undisturbed scanner db page.blocks) (linked : Block.Linked P page.blocks)
    (nodup : (Block.created page.blocks).Nodup) (position : db.scanFrom = page.first.height)
    (ok : HistoryOk db.history) (alive : ∀ entry ∈ db.history, entry.failed = false)
    (receipts : db.ReceiptsKnown) (sameLast : run.last = page.last)
    (birth : run.first.height = db.birthHeight) (part : page.blocks ⊆ run.blocks)
    (known : ∀ commit, commit ∈ db.known ∨ Creates scanner page.blocks commit ↔
      Creates scanner run.blocks commit)
    (spent : ∀ output ∈ db.outputs, output.spent → output.commit ∈ run.consumed)
    (confirmed : ∀ entry ∈ db.history, entry.direction = .sent → entry.height ≠ none →
      Covered run.consumed entry) :
    Scanned scanner run (db.scanBlocksInner scanner page.blocks false).1 := by
  obtain ⟨reached, tip⟩ := @scanBlocksInner_anchor _ scanner db page linked position
  obtain ⟨alive', receipts'⟩ := undisturbed.keeps ok alive receipts nodup
  have shown : Block.consumed page.blocks ⊆ run.consumed := by
    intro commit member
    obtain ⟨block, blockMember, consumed⟩ := List.mem_flatMap.mp member
    exact List.mem_flatMap.mpr ⟨block, part blockMember, consumed⟩
  refine ⟨sameLast ▸ reached, sameLast ▸ tip, ?_, ?_, ?_, ok.scanBlocksInner _ _ _, alive',
    receipts', ?_⟩
  · rw [scanBlocksInner_birthHeight]
    exact birth
  · intro commit
    rw [WalletFile.known, undisturbed.outputs, mem_known_mergedOutputs]
    exact known commit
  · intro output member flagged
    rw [undisturbed.outputs, mergedOutputs, markSpent, List.mem_map] at member
    obtain ⟨before, member, rfl⟩ := member
    split at flagged
    · next consumed =>
        rw [if_pos consumed]
        exact shown consumed
    · next open' =>
        rw [if_neg open']
        cases List.mem_append.mp member with
        | inl old => exact spent before old flagged
        | inr new =>
            obtain ⟨block, _, new⟩ := List.mem_flatMap.mp new
            obtain ⟨_, _, _, _, _, rfl⟩ := mem_ownedOf.mp new
            simp [DiscoveredOutput.owned] at flagged
  · intro entry member sent settled
    cases undisturbed.mem_history ok alive receipts nodup member with
    | inr new =>
        exact absurd sent (incomingOf_not_sent scanner db.known page.blocks entry new)
    | inl before =>
        obtain ⟨before, beforeMember, rfl⟩ := before
        rw [settleEntry_direction] at sent
        have covered : Covered run.consumed before := by
          by_cases unconfirmed : before.height = none
          · exact (covered_of_settleEntry unconfirmed settled).mono shown
          · exact confirmed before beforeMember sent unconfirmed
        rw [Covered, settleEntry_spentCommits]
        exact covered

theorem Fresh.known (fresh : Fresh db) : db.known = [] := by
  simp [WalletFile.known, fresh.outputs]

theorem Fresh.undisturbed (fresh : Fresh db) (scanner : Scanner P) (blocks : List Block) :
    Undisturbed scanner db blocks where
  retained _ := by simp [Retained, fresh.outputs]
  confirmed _ entry member := by
    have pending := fresh.pending entry member
    simp only [HistoryEntry.isPendingSend, HistoryEntry.isPending, Bool.and_eq_true,
      Option.isNone_iff_eq_none] at pending
    exact unconfirm_of_unconfirmed pending.2.1

theorem Fresh.alive (fresh : Fresh db) : ∀ entry ∈ db.history, entry.failed = false := by
  intro entry member
  have pending := fresh.pending entry member
  simp only [HistoryEntry.isPendingSend, HistoryEntry.isPending, Bool.and_eq_true,
    Bool.not_eq_true'] at pending
  exact pending.2.2

theorem Fresh.sent (fresh : Fresh db) : ∀ entry ∈ db.history,
    entry.direction = .sent ∧ entry.height = none := by
  intro entry member
  have pending := fresh.pending entry member
  simp only [HistoryEntry.isPendingSend, HistoryEntry.isPending, Bool.and_eq_true, beq_iff_eq,
    Option.isNone_iff_eq_none] at pending
  exact ⟨pending.1, pending.2.1⟩

theorem Fresh.receiptsKnown (fresh : Fresh db) : db.ReceiptsKnown :=
  fun entry member incoming => absurd (fresh.sent entry member).1 incoming

/-- The first page of a fresh wallet. -/
theorem Fresh.scan (fresh : Fresh db) (scanner : Scanner P) {page : BlockPage}
    (linked : Block.Linked P page.blocks)
    (nodup : (Block.created page.blocks).Nodup)
    (birth : page.first.height = db.birthHeight) :
    Scanned scanner page (db.scanBlocksInner scanner page.blocks false).1 := by
  have position : db.scanFrom = page.first.height := by
    rw [scanFrom_of_le (fresh.position ▸ UInt64.le_refl _), birth]
  refine (fresh.undisturbed scanner page.blocks).scanned linked nodup position fresh.ok
    fresh.alive fresh.receiptsKnown rfl birth (List.Subset.refl _) ?_ ?_ ?_
  · simp [fresh.known]
  · simp [fresh.outputs]
  · intro entry member _ settled
    exact absurd (fresh.sent entry member).2 settled

/-- A page that a scan could reconcile with begins the run, and so shows all of it. -/
theorem Scanned.run_of_reconciles {run page : BlockPage} (scanned : Scanned scanner run db)
    (overlaps : page.first = run.last) (linked : Block.Linked P (run.extend page).blocks)
    (reconciled : db.reconciles scanner page.blocks false) : run.blocks ⊆ page.blocks := by
  obtain ⟨runLinked, pageLinked⟩ := BlockPage.linked_of_extend overlaps linked
  have start := ((@reconciles_iff _ scanner db page.first page.rest
    pageLinked.consecutive).mp reconciled).1
  have height : run.last.height.toNat = run.first.height.toNat + run.rest.length :=
    Block.Consecutive.getLast_height runLinked.consecutive
  have alone : run.rest.length = 0 := by
    rw [overlaps] at start
    cases start with
    | inl genesis =>
        rw [genesis] at height
        simp at height
        omega
    | inr birth =>
        rw [birth, ← scanned.birth] at height
        omega
  have single : run.blocks = [run.last] := by
    have empty : run.rest = [] := List.length_eq_zero_iff.mp alone
    simp [BlockPage.blocks, BlockPage.last, empty]
  rw [single, BlockPage.blocks_of_overlap overlaps]
  simp

theorem Scanned.undisturbed {run page : BlockPage} (scanned : Scanned scanner run db)
    (overlaps : page.first = run.last) (linked : Block.Linked P (run.extend page).blocks) :
    Undisturbed scanner db page.blocks where
  retained reconciled output member := by
    have shown := scanned.run_of_reconciles overlaps linked reconciled
    have creates : Creates scanner run.blocks output.commit :=
      (scanned.known _).mp (List.mem_map_of_mem member)
    refine ⟨(creates.mono shown).mem_created, fun flagged => ?_⟩
    obtain ⟨block, blockMember, consumed⟩ :=
      List.mem_flatMap.mp (scanned.spent output member flagged)
    exact List.mem_flatMap.mpr ⟨block, shown blockMember, consumed⟩
  confirmed reconciled entry member := by
    have shown := scanned.run_of_reconciles overlaps linked reconciled
    rw [unconfirm, if_neg]
    rintro ⟨sent, settled, uncovered⟩
    have covered := scanned.confirmed entry member sent
      (Option.isSome_iff_ne_none.mp settled)
    have seen : Covered (Block.consumed page.blocks) entry := by
      apply covered.mono
      intro commit inRun
      obtain ⟨block, blockMember, consumed⟩ := List.mem_flatMap.mp inRun
      exact List.mem_flatMap.mpr ⟨block, shown blockMember, consumed⟩
    exact uncovered seen

/-- One page more. -/
theorem Scanned.scan {run page : BlockPage} (scanned : Scanned scanner run db)
    (overlaps : page.first = run.last) (linked : Block.Linked P (run.extend page).blocks)
    (nodup : (Block.created (run.extend page).blocks).Nodup) :
    Scanned scanner (run.extend page) (db.scanBlocksInner scanner page.blocks false).1 := by
  obtain ⟨runLinked, pageLinked⟩ := BlockPage.linked_of_extend overlaps linked
  have part : page.blocks ⊆ (run.extend page).blocks := by
    rw [BlockPage.extend_blocks_eq overlaps]
    exact List.subset_append_right _ _
  have pageNodup : (Block.created page.blocks).Nodup := by
    rw [BlockPage.extend_blocks_eq overlaps, Block.created_append, List.nodup_append] at nodup
    exact nodup.2.1
  have position : db.scanFrom = page.first.height := by
    have above := Block.Consecutive.le_height runLinked.consecutive BlockPage.last_mem
    apply UInt64.toNat_inj.mp
    rw [scanFrom, scanned.position, ← scanned.birth, overlaps, UInt64.toNat_max]
    omega
  have more : run.blocks ⊆ (run.extend page).blocks := by
    rw [BlockPage.extend_blocks]
    exact List.subset_append_left _ _
  have consumedMore : run.consumed ⊆ (run.extend page).consumed := by
    intro commit member
    obtain ⟨block, blockMember, consumed⟩ := List.mem_flatMap.mp member
    exact List.mem_flatMap.mpr ⟨block, more blockMember, consumed⟩
  refine (scanned.undisturbed overlaps linked).scanned pageLinked pageNodup position scanned.ok
    scanned.alive scanned.receipts (BlockPage.extend_last overlaps) scanned.birth part ?_ ?_ ?_
  · intro commit
    rw [scanned.known, BlockPage.extend_blocks, creates_append,
      BlockPage.blocks_of_overlap overlaps]
    constructor
    · rintro (before | ⟨block, member, created⟩)
      · exact .inl before
      · cases List.mem_cons.mp member with
        | inl last => exact .inl ⟨block, last ▸ BlockPage.last_mem, created⟩
        | inr later => exact .inr ⟨block, later, created⟩
    · rintro (before | later)
      · exact .inl before
      · exact .inr (later.mono (List.subset_cons_self _ _))
  · intro output member flagged
    exact consumedMore (scanned.spent output member flagged)
  · intro entry member sent settled
    exact (scanned.confirmed entry member sent settled).mono consumedMore

/-! ## Page after page -/

/-- The state after one scan for each page. -/
def scanPages (scanner : Scanner P) (db : WalletFile) (pages : List BlockPage) : WalletFile :=
  pages.foldl (fun db page => (db.scanBlocksInner scanner page.blocks false).1) db

@[simp] theorem scanPages_nil : db.scanPages scanner [] = db := rfl

@[simp] theorem scanPages_cons (page : BlockPage) (rest : List BlockPage) :
    db.scanPages scanner (page :: rest) =
      (db.scanBlocksInner scanner page.blocks false).1.scanPages scanner rest := rfl

/-- The receipts of pages behind a run: each page knows what the run before it created. -/
def pageReceipts (scanner : Scanner P) : BlockPage → List BlockPage → List HistoryEntry
  | _, [] => []
  | run, page :: rest =>
      page.rest.flatMap (incomingOf scanner (ownedCommits scanner run.blocks)) ++
        pageReceipts scanner (run.extend page) rest

/-- An entry after one settling for each page. -/
def settlePages (pages : List BlockPage) (entry : HistoryEntry) : HistoryEntry :=
  pages.foldl (fun entry page => settleEntry page.blocks entry) entry

theorem settlePages_of_settled {entry : HistoryEntry} (settled : entry.height ≠ none)
    (pages : List BlockPage) : settlePages pages entry = entry := by
  induction pages with
  | nil => rfl
  | cons page rest ih =>
      rw [settlePages, List.foldl_cons, settleEntry_of_settled settled]
      exact ih

theorem overlapping_extend {run page : BlockPage} {rest : List BlockPage}
    (overlapping : BlockPage.Overlapping (run :: page :: rest)) :
    page.first = run.last ∧ BlockPage.Overlapping (run.extend page :: rest) := by
  obtain ⟨overlaps, later⟩ := List.isChain_cons_cons.mp overlapping
  refine ⟨overlaps, ?_⟩
  cases rest with
  | nil => exact List.isChain_singleton _
  | cons next others =>
      obtain ⟨nextOverlaps, others⟩ := List.isChain_cons_cons.mp later
      refine List.isChain_cons_cons.mpr ⟨?_, others⟩
      rw [BlockPage.extend_last overlaps]
      exact nextOverlaps

theorem Scanned.flatMap_incomingOf {run page : BlockPage} (scanned : Scanned scanner run db)
    (overlaps : page.first = run.last) :
    page.blocks.flatMap (incomingOf scanner db.known) =
      page.rest.flatMap (incomingOf scanner (ownedCommits scanner run.blocks)) := by
  have same (commit : Commitment) :
      commit ∈ db.known ↔ commit ∈ ownedCommits scanner run.blocks := by
    rw [scanned.known, mem_ownedCommits]
  have nothing : incomingOf scanner db.known run.last = [] := by
    rw [incomingOf, discovered_eq_nil, List.filter_nil, List.map_nil]
    intro commit creates
    rw [scanned.known]
    exact creates.mono (by simpa using BlockPage.last_mem)
  rw [BlockPage.blocks_of_overlap overlaps, List.flatMap_cons, nothing, List.nil_append]
  exact List.flatMap_congr fun block _ => incomingOf_congr same block

theorem Scanned.flatMap_ownedOf {run page : BlockPage} (scanned : Scanned scanner run db)
    (overlaps : page.first = run.last)
    (nodup : (Block.created (run.extend page).blocks).Nodup) :
    page.blocks.flatMap (ownedOf scanner db.known) = page.rest.flatMap (ownedOf scanner []) := by
  have nothing : ownedOf scanner db.known run.last = [] := by
    rw [ownedOf, discovered_eq_nil, List.map_nil]
    intro commit creates
    rw [scanned.known]
    exact creates.mono (by simpa using BlockPage.last_mem)
  rw [BlockPage.blocks_of_overlap overlaps, List.flatMap_cons, nothing, List.nil_append]
  apply List.flatMap_congr
  intro block member
  apply ownedOf_congr
  intro commit created
  have later : commit ∈ Block.created page.rest :=
    List.mem_flatMap.mpr ⟨block, member, created⟩
  have unknown : commit ∉ db.known := by
    rw [scanned.known]
    intro creates
    exact (BlockPage.created_of_extend nodup).2.2 commit later creates.mem_created
  simp [unknown]

/-- An output without its spent flag. -/
def unmarked (output : OwnedOutput) : OwnedOutput :=
  { output with spent := false }

theorem markSpent_unmarked (spent : List Commitment) (outputs : List OwnedOutput) :
    (markSpent spent outputs).map unmarked = outputs.map unmarked := by
  rw [markSpent, List.map_map]
  apply List.map_congr_left
  intro output _
  simp only [Function.comp_apply]
  split <;> rfl

theorem ownedOf_unmarked (known : List Commitment) (blocks : List Block) :
    (blocks.flatMap (ownedOf scanner known)).map unmarked =
      blocks.flatMap (ownedOf scanner known) := by
  calc (blocks.flatMap (ownedOf scanner known)).map unmarked =
        (blocks.flatMap (ownedOf scanner known)).map id := by
          apply List.map_congr_left
          intro owned member
          obtain ⟨block, _, member⟩ := List.mem_flatMap.mp member
          obtain ⟨_, _, _, _, _, rfl⟩ := mem_ownedOf.mp member
          rfl
    _ = _ := List.map_id _

/-- What the pages behind a scanned run leave. -/
structure PagesLeave (scanner : Scanner P) (db next : WalletFile) (run : BlockPage)
    (pages : List BlockPage) : Prop where
  scanned : Scanned scanner (run.join pages) next
  outputs : next.outputs = (db.ingestFeeds scanner pages).outputs
  unmarked : next.outputs.map unmarked =
    db.outputs.map unmarked ++ (pages.flatMap BlockPage.rest).flatMap (ownedOf scanner [])
  history : next.history.Perm
    (db.history.map (settlePages pages) ++ pageReceipts scanner run pages)

theorem Scanned.scanPages {run : BlockPage} {pages : List BlockPage}
    (scanned : Scanned scanner run db) (overlapping : BlockPage.Overlapping (run :: pages))
    (linked : Block.Linked P (run.join pages).blocks)
    (nodup : (Block.created (run.join pages).blocks).Nodup) :
    PagesLeave scanner db (db.scanPages scanner pages) run pages := by
  induction pages generalizing run db with
  | nil =>
      refine ⟨scanned, rfl, by simp, ?_⟩
      simp only [scanPages_nil, pageReceipts, List.append_nil]
      exact .of_eq (List.map_id db.history).symm
  | cons page rest ih =>
      obtain ⟨overlaps, laterOverlap⟩ := overlapping_extend overlapping
      have extended : Block.Linked P (run.extend page).blocks := BlockPage.linked_of_join linked
      have extendedNodup : (Block.created (run.extend page).blocks).Nodup :=
        BlockPage.created_of_join nodup
      have undisturbed := scanned.undisturbed overlaps extended
      have pageNodup : (Block.created page.blocks).Nodup := by
        have created := extendedNodup
        rw [BlockPage.extend_blocks_eq overlaps, Block.created_append, List.nodup_append]
          at created
        exact created.2.1
      have later := ih (scanned.scan overlaps extended extendedNodup) laterOverlap linked nodup
      have pageHistory := undisturbed.history scanned.ok scanned.alive scanned.receipts pageNodup
      rw [scanned.flatMap_incomingOf overlaps] at pageHistory
      refine ⟨later.scanned, ?_, ?_, ?_⟩
      · rw [scanPages_cons, later.outputs, ingestFeeds_cons]
        apply ingestFeeds_outputs_congr
        rw [undisturbed.outputs, ingestFeed_outputs]
      · rw [scanPages_cons, later.unmarked, undisturbed.outputs, mergedOutputs,
          markSpent_unmarked, List.map_append, ownedOf_unmarked,
          scanned.flatMap_ownedOf overlaps extendedNodup]
        simp
      · have receiptsStay : (page.rest.flatMap
            (incomingOf scanner (ownedCommits scanner run.blocks))).map (settlePages rest) =
            page.rest.flatMap (incomingOf scanner (ownedCommits scanner run.blocks)) := by
          calc _ = (page.rest.flatMap
                (incomingOf scanner (ownedCommits scanner run.blocks))).map id := by
                apply List.map_congr_left
                intro entry member
                obtain ⟨block, _, member⟩ := List.mem_flatMap.mp member
                obtain ⟨_, _, _, found, _, _, rfl⟩ := mem_incomingOf.mp member
                exact settlePages_of_settled (incoming_isReceipt found _ _ _).2 rest
            _ = _ := List.map_id _
        have settled := pageHistory.map (settlePages rest)
        rw [List.map_append, receiptsStay, List.map_map] at settled
        have both := later.history.trans (settled.append_right _)
        rw [List.append_assoc] at both
        exact both

end WalletFile

end Nightfall
