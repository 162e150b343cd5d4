import Nightfall.Wallet.PageIndependence

/-!
# Reconciling with another chain

A wallet is given a whole chain from its birth height on.  `adopt_converges_iff` says when
it ends with the outputs of a fresh wallet that scanned only that chain.
-/

namespace Nightfall

variable {P : Primitives}

namespace WalletFile

variable {scanner : Scanner P} {db : WalletFile}

/-! ## Receipts stay known -/

theorem mem_appendNew {same : HistoryEntry → HistoryEntry → Bool}
    {found history : List HistoryEntry} {entry : HistoryEntry}
    (member : entry ∈ appendNew same found history) : entry ∈ history ∨ entry ∈ found := by
  induction found generalizing history with
  | nil => exact .inl member
  | cons first rest ih =>
      rw [appendNew, List.foldl_cons] at member
      split at member
      · exact (ih member).imp id (List.mem_cons_of_mem _)
      · rcases ih member with before | later
        · rcases List.mem_append.mp before with old | new
          · exact .inl old
          · exact .inr (List.mem_singleton.mp new ▸ List.mem_cons_self)
        · exact .inr (List.mem_cons_of_mem _ later)

/-- The commitments after a scan. -/
theorem mem_known_scanBlocksInner {blocks : List Block} {force : Bool} {commit : Commitment} :
    commit ∈ (db.scanBlocksInner scanner blocks force).1.known ↔
      (commit ∈ db.known ∨ Creates scanner blocks commit) ∧
        (db.reconciles scanner blocks force → commit ∈ Block.created blocks) := by
  rw [known, scanBlocksInner_outputs, ← mem_known_mergedOutputs]
  split
  · next reconciled =>
      simp only [reconcileWith, reconciled, true_imp_iff, List.map_map, List.mem_map,
        List.mem_filter, decide_eq_true_eq, Function.comp_apply]
      constructor
      · rintro ⟨output, ⟨member, onChain⟩, rfl⟩
        exact ⟨⟨output, member, rfl⟩, onChain⟩
      · rintro ⟨⟨output, member, rfl⟩, onChain⟩
        exact ⟨output, ⟨member, onChain⟩, rfl⟩
  · next apart => simp [apart]

theorem keepsEntry_iff {dropped : List Commitment} {entry : HistoryEntry}
    (incoming : entry.direction ≠ .sent) {commit : Commitment}
    (hex : entry.txid = commit.toHex) : keepsEntry dropped entry = true ↔ commit ∉ dropped := by
  cases direction : entry.direction with
  | sent => exact absurd direction incoming
  | received => simp [keepsEntry, direction, hex]
  | mined => simp [keepsEntry, direction, hex]

/-- An entry that a reconciliation keeps was there, and is about an output of the chain if
it is a known receipt. -/
theorem mem_settledHistory {blocks : List Block} {force : Bool} {entry : HistoryEntry}
    (member : entry ∈ db.settledHistory scanner blocks force) (incoming : entry.direction ≠ .sent) :
    entry ∈ db.history ∧ (db.reconciles scanner blocks force →
      ∀ commit ∈ db.known, entry.txid = commit.toHex → commit ∈ Block.created blocks) := by
  unfold settledHistory at member
  split at member
  · next reconciled =>
      simp only [reconcileWith, List.mem_map, List.mem_filter] at member
      obtain ⟨before, ⟨beforeMember, kept⟩, rfl⟩ := member
      rw [unconfirm_direction] at incoming
      rw [unconfirm_of_receipt incoming]
      refine ⟨beforeMember, fun _ commit knew hex => ?_⟩
      by_contra absent
      have dropped : commit ∈ ({ db with
          outputs := db.mergedOutputs scanner blocks } : WalletFile).known.filter fun commit =>
            commit ∉ blocks.flatMap fun block => block.body.outputCommits := by
        refine List.mem_filter.mpr ⟨mem_known_mergedOutputs.mpr (.inl knew), ?_⟩
        simpa [Block.created] using absent
      exact (keepsEntry_iff incoming hex).mp kept dropped
  · next apart => exact ⟨member, fun reconciled => absurd reconciled apart⟩

/-- The receipts after a scan are old ones, on the chain if it was reconciled with, or
those of the blocks. -/
theorem mem_receipts_scanBlocksInner (ok : HistoryOk db.history) {blocks : List Block}
    {force : Bool} {entry : HistoryEntry}
    (member : entry ∈ (db.scanBlocksInner scanner blocks force).1.history)
    (incoming : entry.direction ≠ .sent) :
    (entry ∈ db.history ∧ (db.reconciles scanner blocks force →
      ∀ commit ∈ db.known, entry.txid = commit.toHex → commit ∈ Block.created blocks)) ∨
    entry ∈ blocks.flatMap (incomingOf scanner db.known) := by
  have settledOk := ok.settledHistory scanner blocks force
  rw [scanBlocksInner_history, sortHistory, (List.perm_insertionSort _ _).mem_iff,
    confirmAll_eq_map settledOk] at member
  cases mem_appendNew member with
  | inr new => exact .inr new
  | inl old =>
      obtain ⟨before, beforeMember, rfl⟩ := List.mem_map.mp old
      rw [confirmEntry_direction] at incoming
      have confirmed : before.height ≠ none := fun unconfirmed =>
        incoming (settledOk.unconfirmed before beforeMember unconfirmed)
      rw [confirmEntry_of_settled _ _ confirmed]
      exact .inl (mem_settledHistory beforeMember incoming)

theorem ReceiptsKnown.scanBlocksInner (known : db.ReceiptsKnown) (ok : HistoryOk db.history)
    (scanner : Scanner P) (blocks : List Block) (force : Bool) :
    (db.scanBlocksInner scanner blocks force).1.ReceiptsKnown := by
  intro entry member incoming
  cases mem_receipts_scanBlocksInner ok member incoming with
  | inl old =>
      obtain ⟨commit, knew, hex⟩ := known entry old.1 incoming
      exact ⟨commit, mem_known_scanBlocksInner.mpr
        ⟨.inl knew, fun reconciled => old.2 reconciled commit knew hex⟩, hex⟩
  | inr new =>
      obtain ⟨block, blockMember, new⟩ := List.mem_flatMap.mp new
      obtain ⟨output, outputMember, _, found, scanned, _, rfl⟩ := mem_incomingOf.mp new
      have creates : Creates scanner blocks output.commit :=
        ⟨block, blockMember, output, outputMember, rfl, by simp [scanned]⟩
      refine ⟨output.commit, mem_known_scanBlocksInner.mpr
        ⟨.inr creates, fun _ => creates.mem_created⟩, ?_⟩
      rw [← scanner.commit_of_scanOutput scanned]
      rfl

theorem ReceiptsKnown.ingestScanPage (known : db.ReceiptsKnown) (ok : HistoryOk db.history)
    (scanner : Scanner P) (page : ScanPage) :
    (db.ingestScanPage scanner page).1.ReceiptsKnown := by
  have more (commit : Commitment) : commit ∈ (db.ingestScanPage scanner page).1.known ↔
      commit ∈ db.known ∨ ∃ output found, (output, found) ∈
        discoveredInPage scanner db.known page.outputs ∧ found.commit = commit := by
    simp only [WalletFile.known, WalletFile.ingestScanPage, markSpent_commits, List.map_append,
      List.map_map, List.mem_append, List.mem_map, Prod.exists, Function.comp_apply]
    rfl
  intro entry member incoming
  rw [WalletFile.ingestScanPage, sortHistory, (List.perm_insertionSort _ _).mem_iff,
    confirmAll_eq_map ok] at member
  cases mem_appendNew member with
  | inl old =>
      obtain ⟨before, beforeMember, rfl⟩ := List.mem_map.mp old
      obtain ⟨commit, knew, hex⟩ := known before beforeMember (by simpa using incoming)
      exact ⟨commit, (more commit).mpr (.inl knew), by simpa using hex⟩
  | inr new =>
      obtain ⟨⟨output, found⟩, listed, rfl⟩ := List.mem_map.mp new
      exact ⟨found.commit, (more _).mpr (.inr ⟨output, found, List.mem_of_mem_filter listed, rfl⟩),
        rfl⟩

/-- A change of the entries that keeps ids and directions, and of the outputs that keeps
their commitments. -/
theorem ReceiptsKnown.map (known : db.ReceiptsKnown) {next : WalletFile}
    {change : HistoryEntry → HistoryEntry} (history : next.history = db.history.map change)
    (direction : ∀ entry, (change entry).direction = entry.direction)
    (txid : ∀ entry, (change entry).txid = entry.txid) (same : next.known = db.known) :
    next.ReceiptsKnown := by
  intro entry member incoming
  rw [history] at member
  obtain ⟨before, beforeMember, rfl⟩ := List.mem_map.mp member
  rw [direction] at incoming
  obtain ⟨commit, knew, hex⟩ := known before beforeMember incoming
  exact ⟨commit, same ▸ knew, (txid before).trans hex⟩

theorem ReceiptsKnown.recordSendAt (known : db.ReceiptsKnown) (tx : Transaction)
    (amount : UInt64) (memo : Text) (timestamp : UInt64) :
    (recordSendAt P tx amount memo timestamp db).ReceiptsKnown := by
  have same : (WalletFile.recordSendAt P tx amount memo timestamp db).known = db.known :=
    markSpent_commits _ _
  intro entry member incoming
  rw [same]
  simp only [WalletFile.recordSendAt] at member
  split at member
  · exact known entry member incoming
  · rcases List.mem_cons.mp member with rfl | old
    · exact absurd rfl incoming
    · exact known entry old incoming

theorem ReceiptsKnown.releaseSends (known : db.ReceiptsKnown) (txids : List Text)
    (unspend : List Commitment) : (db.releaseSends txids unspend).1.ReceiptsKnown := by
  simp only [WalletFile.releaseSends]
  split
  · exact known
  · refine known.map rfl ?_ ?_ ?_
    · intro entry
      unfold failSend
      split <;> rfl
    · intro entry
      unfold failSend
      split <;> rfl
    · rw [WalletFile.known, WalletFile.known, List.map_map]
      apply List.map_congr_left
      intro output _
      rw [Function.comp_apply]
      split <;> rfl

end WalletFile

namespace Wallet

variable {S : Sealing} {C : TransferCrypto P} {wallet : Wallet P}

/-- Every operation keeps the receipts known. -/
theorem receiptsKnown_step (ok : WalletFile.HistoryOk wallet.db.history)
    (known : wallet.db.ReceiptsKnown) (op : WalletOp P) :
    (wallet.step S C op).db.ReceiptsKnown := by
  cases op with
  | scanBlocks blocks =>
      cases wallet.scanBlocks_db (S := S) blocks with
      | inl same => exact same ▸ known
      | inr scanned =>
          simp only [step, scanned]
          exact known.scanBlocksInner ok _ _ _
  | rebaseOnShorterChain blocks =>
      cases wallet.rebaseOnShorterChain_db (S := S) blocks with
      | inl same => exact same ▸ known
      | inr scanned =>
          simp only [step, scanned]
          exact known.scanBlocksInner ok _ _ _
  | ingestScanPage page => exact known.ingestScanPage ok _ page
  | ingestAnchoredScanPage page start startHash scannedHash =>
      cases wallet.ingestAnchoredScanPage_db (S := S) page start startHash scannedHash with
      | inl same => exact same ▸ known
      | inr ingested =>
          obtain ⟨tip, ingested⟩ := ingested
          simp only [step, ingested]
          exact known.ingestScanPage ok _ page
  | beginLightRescan =>
      cases wallet.beginLightRescan_db with
      | inl same => exact same ▸ known
      | inr rescanned =>
          simp only [step, rescanned.2]
          intro entry member incoming
          obtain ⟨before, sent, rfl⟩ := List.mem_map.mp member
          exact absurd (by simpa using List.of_mem_filter sent) incoming
  | pay draws recipient amount fee memo tipHeight maturity timestamp =>
      cases wallet.recordBuilt_db _ amount memo timestamp with
      | inl same => exact same.2 ▸ known
      | inr recorded =>
          obtain ⟨tx, _, recorded⟩ := recorded
          simp only [step, recorded]
          exact known.recordSendAt tx amount memo timestamp
  | payFrom draws commits recipient amount fee memo tipHeight maturity timestamp =>
      cases wallet.recordBuilt_db _ amount memo timestamp with
      | inl same => exact same.2 ▸ known
      | inr recorded =>
          obtain ⟨tx, _, recorded⟩ := recorded
          simp only [step, recorded]
          exact known.recordSendAt tx amount memo timestamp
  | recordSend tx amount memo timestamp => exact known.recordSendAt tx amount memo timestamp
  | releaseSends txids unspend =>
      cases wallet.releaseSends_db txids unspend with
      | inl same => exact same ▸ known
      | inr released =>
          simp only [step, released]
          exact known.releaseSends txids unspend
  | reserveCommits hexes =>
      cases wallet.editOrRollBack_db (WalletFile.reserveCommits hexes) with
      | inl same => exact same ▸ known
      | inr edited =>
          simp only [step, reserveCommits, edited]
          exact known
  | releaseCommits hexes =>
      cases wallet.editOrRollBack_db (WalletFile.releaseCommits hexes) with
      | inl same => exact same ▸ known
      | inr edited =>
          simp only [step, releaseCommits, edited]
          exact known
  | quarantinePendingSends =>
      simp only [step, quarantinePendingSends, editIfChanged_db]
      refine known.map rfl ?_ ?_ rfl
      · intro entry
        split <;> rfl
      · intro entry
        split <;> rfl
  | quarantineImportedSends =>
      simp only [step, quarantineImportedSends, editIfChanged_db]
      refine known.map rfl ?_ ?_ rfl
      · intro entry
        split <;> rfl
      · intro entry
        split <;> rfl
  | exportImport => exact known

theorem Grown.receiptsKnown (grown : wallet.Grown S C) : wallet.db.ReceiptsKnown := by
  obtain ⟨network, keys, birthHeight, ops, rfl⟩ := grown
  let holds (wallet : Wallet P) : Prop :=
    WalletFile.HistoryOk wallet.db.history ∧ wallet.db.ReceiptsKnown
  have along : GuardedRun.Along (step S C) (fun _ _ => True)
      (inMemory network keys birthHeight) ops :=
    .of_forall_mem _ fun _ _ => trivial
  have initially : holds (inMemory network keys birthHeight) :=
    ⟨WalletFile.HistoryOk.nil, by simp [WalletFile.ReceiptsKnown, inMemory]⟩
  have preserved : ∀ wallet op, holds wallet → True → holds (wallet.step S C op) :=
    fun _ op ok _ => ⟨historyOk_step ok.1 op, receiptsKnown_step ok.1 ok.2 op⟩
  exact (along.invariant initially preserved).2

end Wallet

namespace WalletFile

variable {scanner : Scanner P} {db : WalletFile}

/-! ## Agreement with a fresh wallet -/

/-- What two wallets that scanned one chain agree on about an output. -/
def outputView (output : OwnedOutput) : Commitment × UInt64 × UInt64 × Bool :=
  (output.commit, output.value, output.height, output.isCoinbase)

/-- The outputs that a fresh scan of the blocks finds. -/
def foundOn (scanner : Scanner P) (blocks : List Block) : List OwnedOutput :=
  blocks.flatMap (ownedOf scanner [])

/-- A wallet ended with the outputs of a fresh one, and with receipts that stand at the
heights at which the blocks contain them. -/
structure Converges (next fresh : WalletFile) (blocks : List Block) : Prop where
  outputs : ∀ shown, (∃ output ∈ next.outputs, outputView output = shown) ↔
    ∃ output ∈ fresh.outputs, outputView output = shown
  spent : ∀ output ∈ next.outputs, output.commit ∉ next.pendingInputCommits →
    ∀ other ∈ fresh.outputs, other.commit = output.commit → output.spent = other.spent
  heights : ∀ entry ∈ next.history, entry.direction ≠ .sent →
    ∃ block ∈ blocks, ∃ commit ∈ block.body.outputCommits,
      entry.txid = commit.toHex ∧ entry.height = some block.height

/-- What the wallet recorded about the outputs of these blocks is what the blocks say. -/
structure RecordsAgree (scanner : Scanner P) (db : WalletFile) (blocks : List Block) : Prop where
  found : ∀ output ∈ db.outputs, output.commit ∈ Block.created blocks →
    ∃ other ∈ foundOn scanner blocks, outputView other = outputView output
  recorded : ∀ other ∈ foundOn scanner blocks, other.commit ∈ db.known →
    ∃ output ∈ db.outputs, outputView output = outputView other
  heights : ∀ entry ∈ db.history, entry.direction ≠ .sent →
    ∀ commit ∈ Block.created blocks, entry.txid = commit.toHex →
      ∃ block ∈ blocks, commit ∈ block.body.outputCommits ∧ entry.height = some block.height

@[simp] theorem outputView_markSpent {spent : List Commitment} {outputs : List OwnedOutput}
    {shown : Commitment × UInt64 × UInt64 × Bool} :
    (∃ output ∈ markSpent spent outputs, outputView output = shown) ↔
      ∃ output ∈ outputs, outputView output = shown := by
  have views : (markSpent spent outputs).map outputView = outputs.map outputView := by
    rw [markSpent, List.map_map]
    apply List.map_congr_left
    intro output _
    rw [Function.comp_apply]
    split <;> rfl
  rw [← List.mem_map, ← List.mem_map, views]

/-- New outputs are those found on the blocks that the wallet did not know. -/
theorem mem_flatMap_ownedOf {known : List Commitment} {blocks : List Block}
    {output : OwnedOutput} : output ∈ blocks.flatMap (ownedOf scanner known) ↔
      output ∈ foundOn scanner blocks ∧ output.commit ∉ known := by
  simp only [foundOn, List.mem_flatMap, mem_ownedOf]
  constructor
  · rintro ⟨block, blockMember, served, servedMember, unknown, found, scanned, rfl⟩
    refine ⟨⟨block, blockMember, served, servedMember, by simp, found, scanned, rfl⟩, ?_⟩
    have same : (found.owned block.height served.features.isCoinbase).commit = served.commit :=
      scanner.commit_of_scanOutput scanned
    rw [same]
    exact unknown
  · rintro ⟨⟨block, blockMember, served, servedMember, _, found, scanned, rfl⟩, unknown⟩
    have same : (found.owned block.height served.features.isCoinbase).commit = served.commit :=
      scanner.commit_of_scanOutput scanned
    rw [same] at unknown
    exact ⟨block, blockMember, served, servedMember, unknown, found, scanned, rfl⟩

theorem mem_created_of_foundOn {blocks : List Block} {output : OwnedOutput}
    (member : output ∈ foundOn scanner blocks) : output.commit ∈ Block.created blocks := by
  have listed : output.commit ∈ ownedCommits scanner blocks := List.mem_map_of_mem member
  exact (mem_ownedCommits.mp listed).mem_created

section Reconciled

variable {blocks : List Block} {force : Bool} {fresh : WalletFile}

/-- The outputs after a reconciliation: recorded ones that the blocks create, and new
ones. -/
theorem exists_outputView_iff (reconciled : db.reconciles scanner blocks force)
    {shown : Commitment × UInt64 × UInt64 × Bool} :
    (∃ output ∈ (db.scanBlocksInner scanner blocks force).1.outputs, outputView output = shown) ↔
      (∃ output ∈ db.outputs, output.commit ∈ Block.created blocks ∧ outputView output = shown) ∨
        ∃ output ∈ foundOn scanner blocks, output.commit ∉ db.known ∧
          outputView output = shown := by
  have kept : (∃ output ∈ (db.scanBlocksInner scanner blocks force).1.outputs,
      outputView output = shown) ↔ shown.1 ∈ Block.created blocks ∧
        ∃ output ∈ db.mergedOutputs scanner blocks, outputView output = shown := by
    rw [scanBlocksInner_outputs, if_pos reconciled]
    simp only [reconcileWith, List.mem_map, List.mem_filter, decide_eq_true_eq]
    constructor
    · rintro ⟨_, ⟨output, ⟨member, onChain⟩, rfl⟩, rfl⟩
      exact ⟨onChain, output, member, rfl⟩
    · rintro ⟨onChain, output, member, rfl⟩
      exact ⟨_, ⟨output, ⟨member, onChain⟩, rfl⟩, rfl⟩
  rw [kept, mergedOutputs, outputView_markSpent]
  simp only [List.mem_append, mem_flatMap_ownedOf]
  constructor
  · rintro ⟨onChain, output, old | new, rfl⟩
    · exact .inl ⟨output, old, onChain, rfl⟩
    · exact .inr ⟨output, new.1, new.2, rfl⟩
  · rintro (⟨output, member, onChain, rfl⟩ | ⟨output, member, unknown, rfl⟩)
    · exact ⟨onChain, output, .inl member, rfl⟩
    · exact ⟨mem_created_of_foundOn member, output, .inr ⟨member, unknown⟩, rfl⟩

/-- A receipt of an output that the blocks create stays. -/
theorem receipt_stays (ok : HistoryOk db.history) {entry : HistoryEntry}
    (member : entry ∈ db.history) (incoming : entry.direction ≠ .sent) {commit : Commitment}
    (hex : entry.txid = commit.toHex) (onChain : commit ∈ Block.created blocks) :
    entry ∈ (db.scanBlocksInner scanner blocks force).1.history := by
  have settledOk := ok.settledHistory scanner blocks force
  have settled : entry ∈ db.settledHistory scanner blocks force := by
    unfold settledHistory
    split
    · refine List.mem_map.mpr ⟨entry, List.mem_filter.mpr ⟨member, ?_⟩,
        unconfirm_of_receipt incoming⟩
      rw [keepsEntry_iff incoming hex]
      intro dropped
      have absent := List.of_mem_filter dropped
      simp only [decide_eq_true_eq] at absent
      exact absent onChain
    · exact member
  have confirmed : entry.height ≠ none := fun unconfirmed =>
    incoming (ok.unconfirmed entry member unconfirmed)
  rw [scanBlocksInner_history, sortHistory, (List.perm_insertionSort _ _).mem_iff,
    confirmAll_eq_map settledOk, appendNew_eq sameIncoming_iff]
  apply List.mem_append_left
  exact List.mem_map.mpr ⟨entry, settled, confirmEntry_of_settled _ _ confirmed⟩

/-- A reconciliation converges exactly if the records about the blocks agree with them. -/
theorem converges_iff (ok : HistoryOk db.history) (receipts : db.ReceiptsKnown)
    (reconciled : db.reconciles scanner blocks force)
    (freshOutputs : fresh.outputs =
      markSpent (Block.consumed blocks) (foundOn scanner blocks)) :
    Converges (db.scanBlocksInner scanner blocks force).1 fresh blocks ↔
      RecordsAgree scanner db blocks := by
  have freshViews (shown : Commitment × UInt64 × UInt64 × Bool) :
      (∃ output ∈ fresh.outputs, outputView output = shown) ↔
        ∃ output ∈ foundOn scanner blocks, outputView output = shown := by
    rw [freshOutputs, outputView_markSpent]
  constructor
  · rintro ⟨outputs, _, heights⟩
    refine ⟨?_, ?_, ?_⟩
    · intro output member onChain
      rw [← freshViews, ← outputs, exists_outputView_iff reconciled]
      exact .inl ⟨output, member, onChain, rfl⟩
    · intro other member knew
      have there := (outputs _).mpr ((freshViews _).mpr ⟨other, member, rfl⟩)
      rw [exists_outputView_iff reconciled] at there
      rcases there with ⟨output, recorded, _, same⟩ | ⟨output, _, unknown, same⟩
      · exact ⟨output, recorded, same⟩
      · have commit : output.commit = other.commit := congrArg Prod.fst same
        exact absurd (by rw [commit]; exact knew) unknown
    · intro entry member incoming commit onChain hex
      obtain ⟨block, blockMember, other, created, otherHex, height⟩ :=
        heights entry (receipt_stays ok member incoming hex onChain) incoming
      have same : other = commit := Bytes32.toHex_injective (otherHex.symm.trans hex)
      exact ⟨block, blockMember, same ▸ created, height⟩
  · rintro ⟨found, recorded, heights⟩
    refine ⟨?_, ?_, ?_⟩
    · intro shown
      rw [freshViews, exists_outputView_iff reconciled]
      constructor
      · rintro (⟨output, member, onChain, rfl⟩ | ⟨output, member, _, rfl⟩)
        · exact found output member onChain
        · exact ⟨output, member, rfl⟩
      · rintro ⟨other, member, rfl⟩
        by_cases knew : other.commit ∈ db.known
        · obtain ⟨output, outputMember, same⟩ := recorded other member knew
          have commit : output.commit = other.commit := congrArg Prod.fst same
          exact .inl ⟨output, outputMember, commit ▸ mem_created_of_foundOn member, same⟩
        · exact .inr ⟨other, member, knew, rfl⟩
    · intro output member _ other otherMember same
      rw [scanBlocksInner_outputs, if_pos reconciled] at member
      simp only [reconcileWith, List.mem_map] at member
      obtain ⟨before, _, rfl⟩ := member
      rw [freshOutputs, markSpent, List.mem_map] at otherMember
      obtain ⟨origin, originMember, rfl⟩ := otherMember
      have unspent : origin.spent = false := by
        obtain ⟨block, _, inBlock⟩ := List.mem_flatMap.mp originMember
        obtain ⟨_, _, _, _, _, rfl⟩ := mem_ownedOf.mp inBlock
        rfl
      have commit : origin.commit = before.commit := by
        revert same
        split <;> exact id
      by_cases consumed : before.commit ∈ Block.consumed blocks
      · simp [commit, consumed]
      · simp [commit, consumed, unspent]
    · intro entry member incoming
      cases mem_receipts_scanBlocksInner ok member incoming with
      | inl old =>
          obtain ⟨commit, knew, hex⟩ := receipts entry old.1 incoming
          obtain ⟨block, blockMember, created, height⟩ :=
            heights entry old.1 incoming commit (old.2 reconciled commit knew hex) hex
          exact ⟨block, blockMember, commit, created, hex, height⟩
      | inr new =>
          obtain ⟨block, blockMember, new⟩ := List.mem_flatMap.mp new
          obtain ⟨served, servedMember, _, discovery, scanned, _, rfl⟩ := mem_incomingOf.mp new
          refine ⟨block, blockMember, served.commit, List.mem_map_of_mem servedMember, ?_, rfl⟩
          rw [← scanner.commit_of_scanOutput scanned]
          rfl

end Reconciled

/-- Outputs that a wallet recorded above the end of a chain stay unless it reconciles with
that chain. -/
theorem outputs_of_not_reconciles {blocks : List Block} {force : Bool}
    (apart : ¬db.reconciles scanner blocks force) {output : OwnedOutput}
    (member : output ∈ db.outputs) :
    ∃ kept ∈ (db.scanBlocksInner scanner blocks force).1.outputs,
      outputView kept = outputView output := by
  rw [scanBlocksInner_outputs, if_neg apart, mergedOutputs, outputView_markSpent]
  exact ⟨output, List.mem_append_left _ member, rfl⟩

theorem foundOn_below {first : Block} {rest : List Block}
    (consecutive : Block.Consecutive (first :: rest)) {spent : List Commitment}
    {output : OwnedOutput}
    (member : output ∈ markSpent spent (foundOn scanner (first :: rest))) :
    output.height ≤ ((first :: rest).getLast (by simp)).height := by
  have height : output.height ∈ (foundOn scanner (first :: rest)).map OwnedOutput.height := by
    rw [← markSpent_heights spent]
    exact List.mem_map_of_mem member
  obtain ⟨found, foundMember, same⟩ := List.mem_map.mp height
  obtain ⟨block, blockMember, inBlock⟩ := List.mem_flatMap.mp foundMember
  have inside := consecutive.le_height blockMember
  rw [← same, ownedOf_height inBlock, UInt64.le_iff_toNat_le, consecutive.getLast_height]
  omega

end WalletFile

namespace Wallet

variable {S : Sealing} {C : TransferCrypto P} {wallet : Wallet P} {first : Block}
  {rest : List Block}

/-- Give the wallet a chain in full: to rebase on if it ends below the scan position, to
scan otherwise. -/
def adoptChain (S : Sealing) (wallet : Wallet P) (first : Block) (rest : List Block) :
    Except WalletError Nat × Wallet P :=
  if ((first :: rest).getLast (List.cons_ne_nil first rest)).height < wallet.db.scannedTo then
    wallet.rebaseOnShorterChain S (first :: rest)
  else wallet.scanBlocks S (first :: rest)

/-- The wallet takes the chain and ends with what a fresh wallet finds on it. -/
def AdoptConverges (S : Sealing) (wallet : Wallet P) (first : Block) (rest : List Block) :
    Prop :=
  ∃ found next freshFound fresh, wallet.adoptChain S first rest = (.ok found, next) ∧
    (inMemory wallet.network wallet.keys wallet.db.birthHeight).scanBlocks S (first :: rest) =
      (.ok freshFound, fresh) ∧
    WalletFile.Converges next.db fresh.db (first :: rest)

theorem AdoptConverges.accepted (converged : wallet.AdoptConverges S first rest) :
    ∃ found next, wallet.adoptChain S first rest = (.ok found, next) := by
  obtain ⟨found, next, _, _, accepted, _⟩ := converged
  exact ⟨found, next, accepted⟩

theorem rebaseOnShorterChain_of_below (stored : wallet.storage ≠ .file false)
    (consecutive : Block.Consecutive (first :: rest)) (birth : first.height = wallet.db.birthHeight)
    (below : ((first :: rest).getLast (List.cons_ne_nil first rest)).height < wallet.db.scannedTo) :
    wallet.rebaseOnShorterChain S (first :: rest) =
      (.ok (wallet.db.scanBlocksInner (wallet.scanner S) (first :: rest) true).2, { wallet with
        db := (wallet.db.scanBlocksInner (wallet.scanner S) (first :: rest) true).1 }) := by
  have gaps : Guard.each
      (fun (entry : Block × Nat) =>
        Guard.refuse (entry.1.height ≠ first.height + UInt64.ofNat entry.2)
          (WalletError.chainGap (first.height + UInt64.ofNat entry.2)))
      (first :: rest).zipIdx = .ok () := by
    rw [Guard.each_eq_ok]
    intro entry member
    have linked := WalletFile.consecutiveFrom_of_consecutive consecutive
    simp only [Block.consecutiveFrom, List.all_eq_true, beq_iff_eq] at linked
    simp [Guard.refuse, linked entry member]
  have last : ((first :: rest).getLast?.map Block.height).getD first.height =
      ((first :: rest).getLast (by simp)).height := by
    simp [List.getLast?_eq_some_getLast (List.cons_ne_nil first rest)]
  have passed : wallet.db.checkRebase (first :: rest) = .ok () := by
    unfold WalletFile.checkRebase
    rw [Guard.bind_eq_ok]
    refine ⟨first, by simp, ?_⟩
    simp only [Guard.bind_eq_ok, Guard.refuse_eq_ok, exists_const]
    refine ⟨by simp [birth], (), gaps, ?_⟩
    rw [last, ge_iff_le, UInt64.not_le]
    exact below
  unfold rebaseOnShorterChain
  rw [passed]
  cases storage : wallet.storage with
  | memory => simp [scanBlocksInner, save, storage, Except.map]
  | file writes =>
      cases writes with
      | false => exact absurd storage stored
      | true => simp [scanBlocksInner, save, storage, Except.map]

/-- The chain passes the continuity check exactly if the wallet does not stand on its birth
block and, without an anchor, recorded nothing above the end of the chain. -/
theorem checkChainContinuity_stranger (consecutive : Block.Consecutive (first :: rest))
    (birth : first.height = wallet.db.birthHeight)
    (reaches : wallet.db.scannedTo ≤ ((first :: rest).getLast (by simp)).height)
    (below : ∀ output ∈ wallet.db.outputs,
      output.height ≤ ((first :: rest).getLast (by simp)).height)
    (stranger : ∀ block ∈ first :: rest, (block.hash P).toHex ≠ wallet.db.scannedTip) :
    wallet.db.checkChainContinuity P (first :: rest) = .ok () ↔
      wallet.db.scannedTip = [] ∨ wallet.db.scannedTo ≠ wallet.db.birthHeight := by
  by_cases unanchored : wallet.db.scannedTip = []
  · have covers : WalletFile.coversCanonicalHistory (first :: rest) wallet.db.birthHeight
        wallet.db.scannedTo wallet.db.outputs :=
      WalletFile.coversCanonicalHistory_cons.mpr ⟨.inr birth,
        WalletFile.consecutiveFrom_of_consecutive consecutive, reaches, below⟩
    simp [WalletFile.checkChainContinuity, unanchored, covers, Guard.refuse]
  · rw [WalletFile.checkChainContinuity_cons unanchored, WalletFile.RefusesFirst, birth]
    have hash := stranger first List.mem_cons_self
    simp [unanchored, hash, eq_comm]

/-- What a fresh wallet finds on the chain. -/
theorem freshScan (linked : Block.Linked P (first :: rest))
    (birth : first.height = wallet.db.birthHeight) :
    ∃ found fresh, (inMemory wallet.network wallet.keys wallet.db.birthHeight).scanBlocks S
        (first :: rest) = (.ok found, fresh) ∧
      fresh.db.outputs = WalletFile.markSpent (Block.consumed (first :: rest))
        (WalletFile.foundOn (wallet.scanner S) (first :: rest)) := by
  let unused : Wallet P := inMemory wallet.network wallet.keys wallet.db.birthHeight
  have fresh : unused.db.Fresh :=
    ⟨rfl, rfl, rfl, by simp [unused, inMemory], WalletFile.HistoryOk.nil⟩
  have passed : unused.db.checkChainContinuity P (first :: rest) = .ok () :=
    @WalletFile.Fresh.checkChainContinuity _ unused.db ⟨first, rest⟩ fresh linked birth
  refine ⟨_, _, scanBlocks_of_checked passed (by simp [inMemory]), ?_⟩
  have outputs := (fresh.undisturbed (wallet.scanner S) (first :: rest)).outputs
  rw [WalletFile.mergedOutputs, fresh.outputs, fresh.known, List.nil_append] at outputs
  exact outputs

/-- Take any wallet that grew from a fresh one, and any linked run from its birth height
that does not contain the wallet's anchor if it reaches the scan position.  The wallet ends
like a fresh one exactly if, in the latter case, it does not stand on its birth block with
an anchor and recorded nothing above the run, and if its records about the outputs of the
run agree with the run. -/
theorem adoptChain_converges_iff (grown : wallet.Grown S C) (stored : wallet.storage ≠ .file false)
    (linked : Block.Linked P (first :: rest)) (birth : first.height = wallet.db.birthHeight)
    (stranger : wallet.db.scannedTo ≤ ((first :: rest).getLast (by simp)).height →
      ∀ block ∈ first :: rest, (block.hash P).toHex ≠ wallet.db.scannedTip) :
    wallet.AdoptConverges S first rest ↔
      (wallet.db.scannedTo ≤ ((first :: rest).getLast (by simp)).height →
        (wallet.db.scannedTip = [] ∨ wallet.db.scannedTo ≠ wallet.db.birthHeight) ∧
          ∀ output ∈ wallet.db.outputs,
            output.height ≤ ((first :: rest).getLast (by simp)).height) ∧
        WalletFile.RecordsAgree (wallet.scanner S) wallet.db (first :: rest) := by
  have consecutive := linked.consecutive
  obtain ⟨freshFound, fresh, freshScan, freshOutputs⟩ := @freshScan _ S _ _ _ linked birth
  have converges (force : Bool)
      (reconciled : wallet.db.reconciles (wallet.scanner S) (first :: rest) force) :=
    WalletFile.converges_iff grown.historyOk grown.receiptsKnown reconciled freshOutputs
  have adopted {found : Nat} {next : Wallet P}
      (adopted : wallet.adoptChain S first rest = (.ok found, next)) :
      wallet.AdoptConverges S first rest ↔
        WalletFile.Converges next.db fresh.db (first :: rest) := by
    rw [AdoptConverges, adopted, freshScan]
    simp
  by_cases short : ((first :: rest).getLast (List.cons_ne_nil first rest)).height < wallet.db.scannedTo
  · have rebased := @rebaseOnShorterChain_of_below _ S _ _ _ stored consecutive birth short
    rw [adopted (by rw [adoptChain, if_pos short, rebased]),
      converges true (by simp [WalletFile.reconciles])]
    exact iff_and_self.mpr fun _ reaches => absurd short (UInt64.not_lt.mpr reaches)
  · have reaches : wallet.db.scannedTo ≤ ((first :: rest).getLast (by simp)).height :=
      UInt64.not_lt.mp short
    have scans : wallet.adoptChain S first rest = wallet.scanBlocks S (first :: rest) :=
      if_neg short
    by_cases below : ∀ output ∈ wallet.db.outputs,
        output.height ≤ ((first :: rest).getLast (by simp)).height
    · have passes := checkChainContinuity_stranger consecutive birth reaches below
        (stranger reaches)
      have reconciled : wallet.db.reconciles (wallet.scanner S) (first :: rest) false :=
        (WalletFile.reconciles_iff consecutive).mpr ⟨.inr birth, reaches, below⟩
      constructor
      · intro converged
        obtain ⟨_, _, accepted⟩ := converged.accepted
        obtain ⟨passed, _⟩ := scanBlocks_eq_ok.mp (scans ▸ accepted)
        refine ⟨fun _ => ⟨passes.mp passed, below⟩, (converges false reconciled).mp ?_⟩
        exact (adopted (scans.trans (scanBlocks_of_checked passed stored))).mp converged
      · rintro ⟨position, agree⟩
        have passed := passes.mpr (position reaches).1
        rw [adopted (scans.trans (scanBlocks_of_checked passed stored))]
        exact (converges false reconciled).mpr agree
    · refine iff_of_false ?_ fun condition => below (condition.1 reaches).2
      intro converged
      obtain ⟨_, _, accepted⟩ := converged.accepted
      obtain ⟨passed, _⟩ := scanBlocks_eq_ok.mp (scans ▸ accepted)
      rw [adopted (scans.trans (scanBlocks_of_checked passed stored))] at converged
      -- A recorded output above the run stays, and a fresh wallet finds none there.
      apply below
      intro output member
      have apart : ¬wallet.db.reconciles (wallet.scanner S) (first :: rest) false :=
        fun reconciled => below ((WalletFile.reconciles_iff consecutive).mp reconciled).2.2
      obtain ⟨other, otherMember, same⟩ := (converged.outputs _).mp
        (WalletFile.outputs_of_not_reconciles apart member)
      have height : other.height = output.height := congrArg (fun shown => shown.2.2.1) same
      rw [← height]
      exact WalletFile.foundOn_below consecutive (freshOutputs ▸ otherMember)

end Wallet

namespace Sample

/-- The wallet after two blocks of one branch. -/
def branchOps : List (WalletOp primitives) :=
  [.scanBlocks [paidBlock0, paidBlock1]]

def branched : Wallet primitives :=
  GuardedRun.run (Wallet.step sealing crypto) (Wallet.inMemory .devnet keys 0) branchOps

/-- A wallet that begins at the second block and scanned only that one. -/
def birthOps : List (WalletOp primitives) :=
  [.scanBlocks [paidBlock1]]

def newborn : Wallet primitives :=
  GuardedRun.run (Wallet.step sealing crypto) (Wallet.inMemory .devnet keys 1) birthOps

end Sample

namespace Wallet

/-- A wallet on one branch converges on the other branch, which reaches further. -/
theorem adoptChain_converges_branch :
    Sample.branched.AdoptConverges Sample.sealing Sample.paidBlock0
      [Sample.changeBlock1, Sample.changeBlock2] := by
  have facts : Block.Linked Sample.primitives
        [Sample.paidBlock0, Sample.changeBlock1, Sample.changeBlock2] ∧
      Sample.paidBlock0.height = Sample.branched.db.birthHeight ∧
      Sample.branched.storage ≠ .file false ∧
      (∀ block ∈ [Sample.paidBlock0, Sample.changeBlock1, Sample.changeBlock2],
        (block.hash Sample.primitives).toHex ≠ Sample.branched.db.scannedTip) ∧
      Sample.branched.db.scannedTo ≠ Sample.branched.db.birthHeight ∧
      ∀ output ∈ Sample.branched.db.outputs, output.height ≤
        ([Sample.paidBlock0, Sample.changeBlock1, Sample.changeBlock2].getLast
          (by simp)).height := by
    decide +kernel
  have listed : Sample.branched.db.history.map (fun entry => (entry.txid, entry.height)) =
        [(Sample.zeroValued.toHex, some Sample.paidBlock0.height)] ∧
      Sample.zeroValued ∈ Sample.paidBlock0.body.outputCommits := by
    decide +kernel
  have agree : WalletFile.RecordsAgree (Sample.branched.scanner Sample.sealing) Sample.branched.db
      [Sample.paidBlock0, Sample.changeBlock1, Sample.changeBlock2] := by
    refine ⟨by decide +kernel, by decide +kernel, ?_⟩
    intro entry member _ commit _ hex
    have shown := List.mem_map_of_mem (f := fun entry => (entry.txid, entry.height)) member
    rw [listed.1, List.mem_singleton, Prod.mk.injEq] at shown
    have same : commit = Sample.zeroValued := Bytes32.toHex_injective (hex.symm.trans shown.1)
    exact ⟨Sample.paidBlock0, List.mem_cons_self, same ▸ listed.2, shown.2⟩
  obtain ⟨linked, birth, stored, stranger, position, below⟩ := facts
  have grown : Sample.branched.Grown Sample.sealing Sample.crypto :=
    ⟨.devnet, Sample.keys, 0, Sample.branchOps, rfl⟩
  exact (@adoptChain_converges_iff _ Sample.sealing Sample.crypto Sample.branched
    Sample.paidBlock0 [Sample.changeBlock1, Sample.changeBlock2] grown stored linked birth
    fun _ => stranger).mpr ⟨fun _ => ⟨.inr position, below⟩, agree⟩

/-- A wallet that scanned only its birth block refuses the other branch, which the ledger
accepted on the same parent. -/
theorem newborn_refuses_branch :
    (LedgerState.forNetwork Sample.primitives .devnet).Accepts Sample.paidChain2.proofCtx
        Sample.paidChain2.firstHeight [Sample.paidBlock0, Sample.paidBlock1] ∧
      (LedgerState.forNetwork Sample.primitives .devnet).Accepts Sample.changeChain3.proofCtx
        Sample.changeChain3.firstHeight
        [Sample.paidBlock0, Sample.changeBlock1, Sample.changeBlock2] ∧
      Sample.newborn.db.scannedTo = 1 ∧ Sample.newborn.db.birthHeight = 1 ∧
      (∀ block ∈ [Sample.changeBlock1, Sample.changeBlock2],
        (block.hash Sample.primitives).toHex ≠ Sample.newborn.db.scannedTip) ∧
      ¬Sample.newborn.AdoptConverges Sample.sealing Sample.changeBlock1
        [Sample.changeBlock2] := by
  have facts : (LedgerState.forNetwork Sample.primitives .devnet).Accepts
          Sample.paidChain2.proofCtx Sample.paidChain2.firstHeight
          [Sample.paidBlock0, Sample.paidBlock1] ∧
      (LedgerState.forNetwork Sample.primitives .devnet).Accepts Sample.changeChain3.proofCtx
        Sample.changeChain3.firstHeight
        [Sample.paidBlock0, Sample.changeBlock1, Sample.changeBlock2] ∧
      Sample.newborn.db.scannedTo = 1 ∧ Sample.newborn.db.birthHeight = 1 ∧
      (∀ block ∈ [Sample.changeBlock1, Sample.changeBlock2],
        (block.hash Sample.primitives).toHex ≠ Sample.newborn.db.scannedTip) ∧
      (Sample.newborn.adoptChain Sample.sealing Sample.changeBlock1 [Sample.changeBlock2]).1 =
        .error (.chainChanged 1) := by
    decide +kernel
  refine facts.imp_right (And.imp_right (And.imp_right (And.imp_right (And.imp_right ?_))))
  intro refused converged
  obtain ⟨found, next, accepted⟩ := converged.accepted
  rw [accepted] at refused
  cases refused

end Wallet

end Nightfall
