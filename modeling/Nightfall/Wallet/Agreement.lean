import Nightfall.Wallet.Continuity
import Nightfall.Wallet.Settling

/-!
# A page against a full scan

A light wallet ingests the feed of a run of blocks, a full wallet scans the blocks.
`sameScan_iff` says on which states and runs both end with the same outputs, the same
receipts and the same heights of sends.
-/

namespace Nightfall

variable {P : Primitives}

namespace WalletFile

variable {scanner : Scanner P} {db : WalletFile}

/-! ## Outputs -/

theorem map_filter_eq_self {α : Type*} {keep : α → Bool} {change : α → α} {items : List α} :
    (items.filter keep).map change = items ↔ ∀ item ∈ items, keep item ∧ change item = item := by
  constructor
  · intro same
    have all : items.filter keep = items := by
      apply List.Sublist.eq_of_length List.filter_sublist
      have lengths := congrArg List.length same
      rwa [List.length_map] at lengths
    rw [all] at same
    intro item member
    refine ⟨List.filter_eq_self.mp all item member, ?_⟩
    exact List.map_inj_left.mp (same.trans (List.map_id items).symm) item member
  · intro each
    rw [List.filter_eq_self.mpr fun item member => (each item member).1]
    calc items.map change = items.map id :=
          List.map_congr_left fun item member => (each item member).2
      _ = items := List.map_id items

theorem map_reconcile_eq_self {blocks : List Block} {outputs : List OwnedOutput} :
    (outputs.filter fun output => output.commit ∈ Block.created blocks).map
        (fun output => { output with spent := decide (output.commit ∈ Block.consumed blocks) }) =
        outputs ↔
      ∀ output ∈ outputs, output.commit ∈ Block.created blocks ∧
        (output.spent ↔ output.commit ∈ Block.consumed blocks) := by
  rw [map_filter_eq_self]
  apply forall₂_congr
  intro output _
  rw [decide_eq_true_eq]
  apply and_congr_right
  intro _
  constructor
  · intro same
    have flag := congrArg OwnedOutput.spent same
    simp only [← flag, decide_eq_true_eq]
  · intro flag
    have same : decide (output.commit ∈ Block.consumed blocks) = output.spent := by
      rw [Bool.eq_iff_iff, decide_eq_true_eq]
      exact flag.symm
    rw [same]

/-- Every recorded output is on these blocks, and spent only if they consume it. -/
def Retained (db : WalletFile) (blocks : List Block) : Prop :=
  ∀ output ∈ db.outputs, output.commit ∈ Block.created blocks ∧
    (output.spent → output.commit ∈ Block.consumed blocks)

/-- What a scan merges is on the blocks if the recorded outputs are. -/
theorem Retained.mergedOutputs {blocks : List Block} (retained : db.Retained blocks)
    (scanner : Scanner P) : ∀ output ∈ db.mergedOutputs scanner blocks,
      output.commit ∈ Block.created blocks ∧
        (output.spent ↔ output.commit ∈ Block.consumed blocks) := by
  intro output member
  rw [WalletFile.mergedOutputs, markSpent, List.mem_map] at member
  obtain ⟨before, member, rfl⟩ := member
  have placed : before.commit ∈ Block.created blocks ∧
      (before.spent → before.commit ∈ Block.consumed blocks) := by
    cases List.mem_append.mp member with
    | inl old => exact retained before old
    | inr new =>
        obtain ⟨block, blockMember, new⟩ := List.mem_flatMap.mp new
        obtain ⟨output, outputMember, _, found, scanned, rfl⟩ := mem_ownedOf.mp new
        refine ⟨?_, by simp [DiscoveredOutput.owned]⟩
        have same : (found.owned block.height output.features.isCoinbase).commit =
            output.commit := scanner.commit_of_scanOutput scanned
        rw [same]
        exact List.mem_flatMap.mpr ⟨block, blockMember, List.mem_map_of_mem outputMember⟩
  split
  · next consumed => exact ⟨placed.1, by simp [consumed]⟩
  · next open' => exact ⟨placed.1, ⟨placed.2, fun consumed => absurd consumed open'⟩⟩

instance (db : WalletFile) (blocks : List Block) : Decidable (db.Retained blocks) :=
  inferInstanceAs (Decidable (∀ output ∈ db.outputs, _))

/-- A reconciliation changes no output exactly if the recorded ones are all retained. -/
theorem reconcileWith_outputs_eq_iff {blocks : List Block} :
    (reconcileWith blocks (Block.consumed blocks)
        { db with outputs := db.mergedOutputs scanner blocks }).outputs =
        db.mergedOutputs scanner blocks ↔ db.Retained blocks := by
  have created : blocks.flatMap (fun block => block.body.outputCommits) =
      Block.created blocks := rfl
  simp only [reconcileWith, created]
  rw [map_reconcile_eq_self]
  constructor
  · intro each output member
    have merged : markSpent (Block.consumed blocks) [output] ⊆ db.mergedOutputs scanner blocks := by
      intro marked inside
      rw [mergedOutputs, markSpent, List.map_append]
      apply List.mem_append_left
      rw [markSpent, List.map_singleton, List.mem_singleton] at inside
      exact inside ▸ List.mem_map_of_mem member
    by_cases consumed : output.commit ∈ Block.consumed blocks
    · have marked := each { output with spent := true }
        (merged (by simp [markSpent, consumed]))
      exact ⟨marked.1, fun _ => consumed⟩
    · have same := each output (merged (by simp [markSpent, consumed]))
      exact ⟨same.1, same.2.mp⟩
  · intro retained
    exact retained.mergedOutputs scanner

/-- Page and scan give the same outputs exactly if a reconciliation finds nothing to
change. -/
theorem outputs_agree_iff {start : UInt64} {blocks : List Block} :
    (db.ingestScanPage scanner (scanFeed start blocks)).1.outputs =
        (db.scanBlocksInner scanner blocks false).1.outputs ↔
      (db.reconciles scanner blocks false → db.Retained blocks) := by
  rw [ingestScanPage_outputs, scanBlocksInner_outputs]
  split
  · next reconciled =>
      rw [eq_comm, reconcileWith_outputs_eq_iff]
      exact ⟨fun retained _ => retained, fun retained => retained reconciled⟩
  · next apart => simp [apart]

/-! ## Receipts -/

/-- The activity list without the sends. -/
def receipts (history : List HistoryEntry) : List HistoryEntry :=
  history.filter fun entry => entry.direction != .sent

/-- The receipts after discoveries are the receipts before, and the new ones. -/
theorem receipts_scanned {κ : Type} [DecidableEq κ] {same : HistoryEntry → HistoryEntry → Bool}
    {key : HistoryEntry → κ}
    (byKey : ∀ held item, same held item = true ↔ key held = key item)
    {history : List HistoryEntry} (ok : HistoryOk history)
    (confirmed : List (Text × UInt64 × UInt64)) (found : List HistoryEntry)
    (stable : ∀ entry, key (confirmEntry confirmed entry) = key entry)
    (incoming : ∀ entry ∈ found, entry.direction ≠ .sent) :
    (receipts (sortHistory (appendNew same found (confirmAll confirmed history)))).Perm
      (receipts history ++ FirstOfKey.news key (history.map key) found) := by
  have keys : (history.map (confirmEntry confirmed)).map key = history.map key := by
    rw [List.map_map]
    exact List.map_congr_left fun entry _ => stable entry
  have unchanged : receipts (history.map (confirmEntry confirmed)) = receipts history := by
    rw [receipts, receipts, List.filter_map]
    have directions : (fun entry : HistoryEntry => entry.direction != .sent) ∘
        confirmEntry confirmed = fun entry => entry.direction != .sent := by
      funext entry
      simp
    rw [directions]
    calc (history.filter fun entry => entry.direction != .sent).map (confirmEntry confirmed) =
          (history.filter fun entry => entry.direction != .sent).map id := by
            apply List.map_congr_left
            intro entry member
            have direction := List.of_mem_filter member
            apply confirmEntry_of_settled
            intro unconfirmed
            simp [ok.unconfirmed entry (List.mem_of_mem_filter member) unconfirmed] at direction
      _ = _ := List.map_id _
  have allIncoming : receipts (FirstOfKey.news key (history.map key) found) =
      FirstOfKey.news key (history.map key) found := by
    apply List.filter_eq_self.mpr
    intro entry member
    simpa using incoming entry (FirstOfKey.mem_of_mem_news member).1
  have sorted : (receipts (sortHistory (appendNew same found (confirmAll confirmed history)))).Perm
      (receipts (appendNew same found (confirmAll confirmed history))) :=
    (List.perm_insertionSort _ _).filter _
  have appended : receipts (appendNew same found (confirmAll confirmed history)) =
      receipts history ++ FirstOfKey.news key (history.map key) found := by
    rw [confirmAll_eq_map ok, appendNew_eq byKey, keys, receipts, List.filter_append]
    exact congrArg₂ (· ++ ·) unchanged allIncoming
  exact appended ▸ sorted

/-- What a page lists of the discoveries that a scan lists. -/
def keptInPage (known : List Commitment) (blocks : List Block)
    (key : Text × Direction × UInt64) : Bool :=
  key.2.1 == .mined || !sharesSpent (Block.consumed blocks) known

theorem sharesSpent_consumed {known : List Commitment} {blocks : List Block} :
    sharesSpent (Block.consumed blocks) known ↔ ∃ block ∈ blocks, spendsKnown known block := by
  simp only [sharesSpent, Block.consumed, List.any_eq_true, List.mem_flatMap,
    decide_eq_true_eq, spendsKnown, BlockBody.inputCommits, List.mem_map]
  constructor
  · rintro ⟨_, ⟨block, blockMember, input, inputMember, rfl⟩, owned⟩
    exact ⟨block, blockMember, input, inputMember, owned⟩
  · rintro ⟨block, blockMember, input, inputMember, owned⟩
    exact ⟨_, ⟨block, blockMember, input, inputMember, rfl⟩, owned⟩

/-- The discoveries that a page lists are some of those that a scan lists. -/
theorem pageReceipts_eq (known : List Commitment) (start : UInt64) (blocks : List Block) :
    ((discoveredInPage scanner known (scanFeed start blocks).outputs).filter
        fun (output, _) => output.coinbase || !sharesSpent (Block.consumed blocks) known).map
      (fun (output, found) => found.incoming output.height output.timestamp output.coinbase) =
    (blocks.flatMap (incomingOf scanner known)).filter
      (keptInPage known blocks ∘ receiptKey) := by
  rw [discoveredInPage_scanFeed, List.filter_flatMap, List.map_flatMap, List.filter_flatMap]
  apply List.flatMap_congr
  intro block member
  have apart : sharesSpent (Block.consumed blocks) known = false →
      spendsKnown known block = false := by
    intro unshared
    rw [← Bool.not_eq_true, sharesSpent_consumed] at unshared
    simpa using fun spends => unshared ⟨block, member, spends⟩
  rw [incomingOf, List.filter_map, List.filter_map, List.filter_filter, List.map_map]
  congr 1
  apply List.filter_congr
  rintro ⟨output, found⟩ _
  simp only [Function.comp_apply, Block.lightOutput, keptInPage, receiptKey,
    DiscoveredOutput.incoming]
  cases coinbase : output.features.isCoinbase with
  | true => simp
  | false =>
      cases shared : sharesSpent (Block.consumed blocks) known with
      | true => simp
      | false => simp [apart shared]

theorem incomingOf_not_sent (scanner : Scanner P) (known : List Commitment)
    (blocks : List Block) :
    ∀ entry ∈ blocks.flatMap (incomingOf scanner known), entry.direction ≠ .sent := by
  intro entry member
  obtain ⟨block, _, member⟩ := List.mem_flatMap.mp member
  obtain ⟨_, _, _, found, _, _, rfl⟩ := mem_incomingOf.mp member
  exact (incoming_isReceipt found _ _ _).1

/-- The activity list after a served page. -/
theorem ingestScanPage_history (start : UInt64) (blocks : List Block) :
    (db.ingestScanPage scanner (scanFeed start blocks)).1.history =
      sortHistory (appendNew sameReceipt
        ((blocks.flatMap (incomingOf scanner db.known)).filter
          (keptInPage db.known blocks ∘ receiptKey))
        (confirmAll (db.pageConfirmations (scanFeed start blocks)) db.history)) := by
  have spent : (scanFeed start blocks).spent.filterMap decode32 = Block.consumed blocks :=
    scanFeed_spent start blocks
  rw [← pageReceipts_eq db.known start blocks, ← spent]
  rfl

@[simp] theorem unconfirm_receiptKey (spent : List Commitment) (entry : HistoryEntry) :
    receiptKey (unconfirm spent entry) = receiptKey entry := by
  unfold unconfirm
  split <;> rfl

theorem unconfirm_of_receipt {spent : List Commitment} {entry : HistoryEntry}
    (incoming : entry.direction ≠ .sent) : unconfirm spent entry = entry := by
  rw [unconfirm, if_neg (by tauto)]

theorem unconfirm_of_unconfirmed {spent : List Commitment} {entry : HistoryEntry}
    (unconfirmed : entry.height = none) : unconfirm spent entry = entry := by
  rw [unconfirm, if_neg (by simp [unconfirmed])]

/-- A reconciliation that retains every output drops no entry. -/
theorem Retained.settledHistory {blocks : List Block} (retained : db.Retained blocks)
    (reconciled : db.reconciles scanner blocks false) :
    db.settledHistory scanner blocks false =
      db.history.map (unconfirm (Block.consumed blocks)) := by
  have nothingDropped : (({ db with
      outputs := db.mergedOutputs scanner blocks } : WalletFile).known.filter fun commit =>
        commit ∉ blocks.flatMap fun block => block.body.outputCommits) = [] := by
    rw [List.filter_eq_nil_iff]
    intro commit member
    obtain ⟨output, merged, rfl⟩ := List.mem_map.mp member
    simpa [Block.created] using (retained.mergedOutputs scanner output merged).1
  rw [WalletFile.settledHistory, if_pos reconciled]
  simp only [reconcileWith, nothingDropped]
  rw [List.filter_eq_self.mpr]
  intro entry _
  unfold keepsEntry
  cases entry.direction with
  | sent => rfl
  | received => cases decode32 entry.txid <;> rfl
  | mined => cases decode32 entry.txid <;> rfl

/-- Without a change of outputs, a reconciliation touches no receipt and no key. -/
theorem settledHistory_receipts {blocks : List Block}
    (agree : db.reconciles scanner blocks false → db.Retained blocks) :
    receipts (db.settledHistory scanner blocks false) = receipts db.history ∧
      (db.settledHistory scanner blocks false).map receiptKey = db.history.map receiptKey := by
  by_cases reconciled : db.reconciles scanner blocks false
  · rw [(agree reconciled).settledHistory reconciled]
    constructor
    · rw [receipts, receipts, List.filter_map]
      have directions : (fun entry : HistoryEntry => entry.direction != .sent) ∘
          unconfirm (Block.consumed blocks) = fun entry => entry.direction != .sent := by
        funext entry
        simp
      rw [directions]
      calc (db.history.filter fun entry => entry.direction != .sent).map
              (unconfirm (Block.consumed blocks)) =
            (db.history.filter fun entry => entry.direction != .sent).map id := by
              apply List.map_congr_left
              intro entry member
              exact unconfirm_of_receipt (by simpa using List.of_mem_filter member)
        _ = _ := List.map_id _
    · rw [List.map_map]
      exact List.map_congr_left fun entry _ => unconfirm_receiptKey _ entry
  · rw [settledHistory, if_neg reconciled]
    exact ⟨rfl, rfl⟩

/-- Every receipt that the scan would add is listed by the page too, and the page takes
none for another of the same output with a different amount. -/
def ListsReceipts (scanner : Scanner P) (db : WalletFile) (blocks : List Block) : Prop :=
  ∀ entry ∈ blocks.flatMap (incomingOf scanner db.known),
    (∀ recorded ∈ db.history, ¬sameIncoming recorded entry) →
      (entry.direction = .mined ∨ ∀ block ∈ blocks, ¬spendsKnown db.known block) ∧
      (∀ recorded ∈ db.history, ¬sameReceipt recorded entry) ∧
      ∀ other ∈ blocks.flatMap (incomingOf scanner db.known),
        sameReceipt other entry → sameIncoming other entry

instance (blocks : List Block) : Decidable (db.ListsReceipts scanner blocks) :=
  inferInstanceAs (Decidable (∀ entry ∈ blocks.flatMap (incomingOf scanner db.known), _))

theorem listsReceipts_iff {blocks : List Block} :
    db.ListsReceipts scanner blocks ↔
      FirstOfKey.Separates pageKey (keptInPage db.known blocks) receiptKey
        (db.history.map receiptKey) (blocks.flatMap (incomingOf scanner db.known)) := by
  apply forall₂_congr
  intro entry _
  have unrecorded : (∀ recorded ∈ db.history, ¬sameIncoming recorded entry) ↔
      receiptKey entry ∉ db.history.map receiptKey := by
    simp only [List.mem_map, not_exists, not_and, sameIncoming_iff]
  have kept : (entry.direction = .mined ∨ ∀ block ∈ blocks, ¬spendsKnown db.known block) ↔
      keptInPage db.known blocks (receiptKey entry) = true := by
    rw [keptInPage, Bool.or_eq_true, Bool.not_eq_true', ← Bool.not_eq_true, sharesSpent_consumed]
    simp [receiptKey]
  rw [unrecorded, kept]
  simp only [List.forall_mem_map, sameReceipt_iff, sameIncoming_iff, Function.comp_apply, ne_eq]

/-- Page and scan list the same receipts exactly if the page lists all of the scan's. -/
theorem receipts_agree_iff (ok : HistoryOk db.history) {start : UInt64} {blocks : List Block}
    (agree : db.reconciles scanner blocks false → db.Retained blocks) :
    (receipts (db.ingestScanPage scanner (scanFeed start blocks)).1.history).Perm
        (receipts (db.scanBlocksInner scanner blocks false).1.history) ↔
      db.ListsReceipts scanner blocks := by
  obtain ⟨sameReceipts, sameKeys⟩ := settledHistory_receipts agree
  have full := receipts_scanned sameIncoming_iff (ok.settledHistory scanner blocks false)
    (db.confirmations blocks) _ (confirmEntry_receiptKey _)
    (incomingOf_not_sent scanner db.known blocks)
  rw [sameReceipts, sameKeys, ← scanBlocksInner_history] at full
  have light := receipts_scanned sameReceipt_iff ok
    (db.pageConfirmations (scanFeed start blocks))
    ((blocks.flatMap (incomingOf scanner db.known)).filter
      (keptInPage db.known blocks ∘ receiptKey))
    (fun entry => congrArg pageKey (confirmEntry_receiptKey _ entry))
    (fun entry member => incomingOf_not_sent scanner db.known blocks entry
      (List.mem_of_mem_filter member))
  rw [← ingestScanPage_history, ← List.map_map] at light
  rw [listsReceipts_iff, ← FirstOfKey.news_perm_iff]
  constructor
  · intro same
    exact (List.perm_append_left_iff _).mp ((light.symm.trans same).trans full)
  · intro same
    exact (light.trans ((List.perm_append_left_iff _).mpr same)).trans full.symm

/-! ## Heights of sends -/

/-- The block that completes the inputs of the entry is the last one of the run that has
an output, or its last one if none has. -/
def SettledAtEnd (blocks : List Block) (entry : HistoryEntry) : Prop :=
  ∀ before block after, blocks = before ++ block :: after →
    Covered (Block.consumed (before ++ [block])) entry →
    ¬Covered (Block.consumed before) entry →
      (∀ later ∈ after, later.body.outputs = []) ∧
      (block.body.outputs = [] → after = [] ∧ ∀ earlier ∈ before, earlier.body.outputs = [])

theorem le_foldl_max {heights : List UInt64} {start bound : UInt64} :
    bound ≤ heights.foldl max start ↔ bound ≤ start ∨ ∃ height ∈ heights, bound ≤ height := by
  induction heights generalizing start with
  | nil => simp
  | cons height rest ih =>
      simp only [List.foldl_cons, ih, List.exists_mem_cons_iff, UInt64.le_iff_toNat_le,
        UInt64.toNat_max]
      constructor
      · rintro (first | later)
        · by_cases small : bound.toNat ≤ start.toNat
          · exact .inl small
          · exact .inr (.inl (by omega))
        · exact .inr (.inr later)
      · rintro (first | here | later)
        · exact .inl (by omega)
        · exact .inl (by omega)
        · exact .inr later

theorem Block.Consecutive.around {before after : List Block} {block : Block}
    (consecutive : Block.Consecutive (before ++ block :: after)) :
    (∀ earlier ∈ before, earlier.height < block.height) ∧
      ∀ later ∈ after, block.height < later.height := by
  have increasing : (before ++ block :: after).Pairwise fun left right =>
      left.height.toNat < right.height.toNat := by
    have : IsTrans Block fun left right => left.height.toNat < right.height.toNat :=
      ⟨fun _ _ _ => Nat.lt_trans⟩
    apply List.isChain_iff_pairwise.mp
    exact List.IsChain.imp (fun _ _ next => by omega) consecutive
  rw [List.pairwise_append, List.pairwise_cons] at increasing
  constructor
  · intro earlier member
    exact UInt64.lt_iff_toNat_lt.mpr (increasing.2.2 earlier member block List.mem_cons_self)
  · intro later member
    exact UInt64.lt_iff_toNat_lt.mpr (increasing.2.1.1 later member)

theorem foldl_max_eq_iff {heights : List UInt64} {bound : UInt64} :
    heights.foldl max 0 = bound ↔
      (∀ height ∈ heights, height ≤ bound) ∧
        (bound = 0 ∨ ∃ height ∈ heights, bound ≤ height) := by
  have upper : heights.foldl max 0 ≤ bound ↔ ∀ height ∈ heights, height ≤ bound := by
    simp [foldl_max_le]
  have lower : bound ≤ heights.foldl max 0 ↔
      bound = 0 ∨ ∃ height ∈ heights, bound ≤ height := by
    rw [le_foldl_max, UInt64.le_zero_iff]
  rw [← upper, ← lower]
  constructor
  · rintro rfl
    exact ⟨UInt64.le_refl _, UInt64.le_refl _⟩
  · rintro ⟨above, below⟩
    exact UInt64.le_antisymm above below

/-- The height of a page is that of one of its blocks exactly if this block is the last
one with an output, or the last one of all. -/
theorem pageHeight_eq_iff {start : UInt64} {before after : List Block} {block : Block}
    (consecutive : Block.Consecutive (before ++ block :: after))
    (reached : (scanFeed start (before ++ block :: after)).scannedTo =
      ((before ++ block :: after).getLast (by simp)).height) :
    pageHeight (scanFeed start (before ++ block :: after)).outputs
        (scanFeed start (before ++ block :: after)).scannedTo = block.height ↔
      (∀ later ∈ after, later.body.outputs = []) ∧
      (block.body.outputs = [] → after = [] ∧ ∀ earlier ∈ before, earlier.body.outputs = []) := by
  obtain ⟨below, above⟩ := Block.Consecutive.around consecutive
  have none : (scanFeed start (before ++ block :: after)).outputs = [] ↔
      (∀ earlier ∈ before, earlier.body.outputs = []) ∧ block.body.outputs = [] ∧
        ∀ later ∈ after, later.body.outputs = [] := by
    simp [scanFeed]
  have heights (height : UInt64) :
      height ∈ (scanFeed start (before ++ block :: after)).outputs.map LightOutput.height ↔
        ∃ other ∈ before ++ block :: after, other.body.outputs ≠ [] ∧ other.height = height := by
    simp only [scanFeed, List.map_flatMap, List.map_map, List.mem_flatMap, List.mem_map]
    constructor
    · rintro ⟨other, member, output, outputMember, rfl⟩
      exact ⟨other, member, List.ne_nil_of_mem outputMember, rfl⟩
    · rintro ⟨other, member, some, rfl⟩
      obtain ⟨output, outputMember⟩ := List.exists_mem_of_ne_nil _ some
      exact ⟨other, member, output, outputMember, rfl⟩
  rw [pageHeight]
  split
  · next empty =>
      obtain ⟨earlierEmpty, blockEmpty, laterEmpty⟩ := none.mp empty
      rw [reached]
      constructor
      · intro same
        refine ⟨laterEmpty, fun _ => ⟨?_, earlierEmpty⟩⟩
        by_contra more
        have last : (before ++ block :: after).getLast (by simp) = after.getLast more := by
          rw [List.getLast_append_of_ne_nil _ (by simp), List.getLast_cons more]
        have higher := above _ (List.getLast_mem more)
        rw [← last, same] at higher
        exact UInt64.lt_irrefl _ higher
      · rintro ⟨_, alone⟩
        obtain ⟨rfl, _⟩ := alone blockEmpty
        simp
  · next some =>
      rw [foldl_max_eq_iff]
      simp only [heights]
      constructor
      · rintro ⟨upper, lower⟩
        have laterEmpty : ∀ later ∈ after, later.body.outputs = [] := by
          intro later member
          by_contra filled
          have bounded := upper later.height ⟨later, by simp [member], filled, rfl⟩
          exact UInt64.not_le.mpr (above later member) bounded
        refine ⟨laterEmpty, fun blockEmpty => absurd (none.mpr ⟨?_, blockEmpty, laterEmpty⟩) some⟩
        intro earlier member
        by_contra filled
        cases lower with
        | inl zero =>
            have lower := below earlier member
            rw [zero] at lower
            exact UInt64.not_lt_zero lower
        | inr reaches =>
            obtain ⟨_, ⟨other, otherMember, otherFilled, rfl⟩, reaches⟩ := reaches
            rcases List.mem_append.mp otherMember with before' | after'
            · exact UInt64.not_le.mpr (below other before') reaches
            · cases List.mem_cons.mp after' with
              | inl here => exact otherFilled (here ▸ blockEmpty)
              | inr later => exact otherFilled (laterEmpty other later)
      · rintro ⟨laterEmpty, alone⟩
        have filled : block.body.outputs ≠ [] := by
          intro blockEmpty
          exact some (none.mpr ⟨(alone blockEmpty).2, blockEmpty, laterEmpty⟩)
        refine ⟨?_, .inr ⟨_, ⟨block, by simp, filled, rfl⟩, UInt64.le_refl _⟩⟩
        rintro _ ⟨other, otherMember, otherFilled, rfl⟩
        rcases List.mem_append.mp otherMember with before' | after'
        · exact UInt64.le_of_lt (below other before')
        · cases List.mem_cons.mp after' with
          | inl here => exact here ▸ UInt64.le_refl _
          | inr later => exact absurd (laterEmpty other later) otherFilled

/-- The sends after a scan are the settled ones, each confirmed or not. -/
theorem mem_scanBlocksInner_history (ok : HistoryOk db.history) {blocks : List Block}
    {force : Bool} {entry : HistoryEntry} (sent : entry.direction = .sent) :
    entry ∈ (db.scanBlocksInner scanner blocks force).1.history ↔
      ∃ before ∈ db.settledHistory scanner blocks force,
        confirmEntry (db.confirmations blocks) before = entry := by
  rw [scanBlocksInner_history, mem_sends_sortHistory_appendNew
    (incomingOf_not_sent scanner db.known blocks) sent,
    confirmAll_eq_map (ok.settledHistory scanner blocks force), List.mem_map]

/-- A pending send stays as it is when a scan reconciles. -/
theorem mem_settledHistory_of_pending {blocks : List Block} {force : Bool}
    {entry : HistoryEntry} (member : entry ∈ db.history) (sent : entry.direction = .sent)
    (unconfirmed : entry.height = none) : entry ∈ db.settledHistory scanner blocks force := by
  rw [settledHistory]
  split
  · refine List.mem_map.mpr ⟨entry, List.mem_filter.mpr ⟨member, ?_⟩,
      unconfirm_of_unconfirmed unconfirmed⟩
    simp [keepsEntry, sent]
  · exact member

/-- Page and scan give every pending send the same height exactly if each one that the
run settles is settled at its end. -/
theorem heights_agree_iff (ok : HistoryOk db.history) {first : Block} {rest : List Block}
    (consecutive : Block.Consecutive (first :: rest)) :
    (∀ entry ∈ db.history, entry.isPendingSend →
      sendHeight (db.ingestScanPage scanner (scanFeed first.height (first :: rest))).1.history
          entry.txid =
        sendHeight (db.scanBlocksInner scanner (first :: rest) false).1.history entry.txid) ↔
      ∀ entry ∈ db.history, entry.isPendingSend → SettledAtEnd (first :: rest) entry := by
  apply forall₃_congr
  intro entry member pending
  have pending' := pending
  simp only [HistoryEntry.isPendingSend, HistoryEntry.isPending, Bool.and_eq_true, beq_iff_eq,
    Option.isNone_iff_eq_none] at pending'
  obtain ⟨sent, unconfirmed, _⟩ := pending'
  have lightHeight := sendHeight_eq
    (ok.ingestScanPage scanner (scanFeed first.height (first :: rest)))
    ((mem_ingestScanPage_history ok (by simpa using sent)).mpr ⟨entry, member, rfl⟩)
    (by simpa using sent)
  have fullHeight := sendHeight_eq (ok.scanBlocksInner scanner (first :: rest) false)
    ((mem_scanBlocksInner_history ok (by simpa using sent)).mpr
      ⟨entry, mem_settledHistory_of_pending member sent unconfirmed, rfl⟩)
    (by simpa using sent)
  rw [confirmEntry_txid, confirmEntry_height unconfirmed] at lightHeight fullHeight
  rw [lightHeight, fullHeight, confirmationOf_pageConfirmations ok member pending,
    confirmationOf_confirmations ok member pending, scanFeed_spent]
  have reached : (scanFeed first.height (first :: rest)).scannedTo =
      ((first :: rest).getLast (by simp)).height :=
    consecutive.foldl_max (by omega)
  constructor
  · intro same before block after split covered uncovered
    have settles : settlingBlock [] entry (first :: rest) = some block :=
      (settlingBlock_eq_some not_covered_nil).mpr ⟨before, after, split,
        by simpa using covered, by simpa using uncovered⟩
    rw [settles, if_pos (by exact covered_of_settlingBlock settles)] at same
    simp only [Option.map_some, Option.some.injEq] at same
    simp only [split] at same reached consecutive
    exact (pageHeight_eq_iff consecutive reached).mp same
  · intro atEnd
    cases settles : settlingBlock [] entry (first :: rest) with
    | none =>
        have uncovered := (settlingBlock_eq_none not_covered_nil).mp settles
        rw [if_neg (by exact uncovered)]
        rfl
    | some block =>
        obtain ⟨before, after, split, covered, uncovered⟩ :=
          (settlingBlock_eq_some not_covered_nil).mp settles
        have placed := atEnd before block after split (by simpa using covered)
          (by simpa using uncovered)
        rw [if_pos (by exact covered_of_settlingBlock settles)]
        simp only [split] at reached consecutive placed ⊢
        have same := (pageHeight_eq_iff consecutive reached).mpr placed
        simp [same]

/-! ## All of it -/

/-- A page and a scan left the same outputs, the same receipts and the same heights of
the sends that were pending. -/
structure SameScan (before full light : WalletFile) : Prop where
  outputs : light.outputs = full.outputs
  receipts : (receipts light.history).Perm (receipts full.history)
  heights : ∀ entry ∈ before.history, entry.isPendingSend →
    sendHeight light.history entry.txid = sendHeight full.history entry.txid

/-- On what states and runs of blocks a page agrees with a scan. -/
structure Agrees (scanner : Scanner P) (db : WalletFile) (first : Block) (rest : List Block) :
    Prop where
  /-- A run that is the whole history of the wallet contains all it recorded. -/
  retained : (first.height = 0 ∨ first.height = db.birthHeight) →
    db.scannedTo ≤ ((first :: rest).getLast (by simp)).height →
    (∀ output ∈ db.outputs, output.height ≤ ((first :: rest).getLast (by simp)).height) →
    db.Retained (first :: rest)
  listed : db.ListsReceipts scanner (first :: rest)
  atEnd : ∀ entry ∈ db.history, entry.isPendingSend → SettledAtEnd (first :: rest) entry

theorem sameScan_iff (ok : HistoryOk db.history) {first : Block} {rest : List Block}
    (consecutive : Block.Consecutive (first :: rest)) :
    SameScan db (db.scanBlocksInner scanner (first :: rest) false).1
        (db.ingestScanPage scanner (scanFeed first.height (first :: rest))).1 ↔
      Agrees scanner db first rest := by
  have whole := @reconciles_iff _ scanner db first rest consecutive
  have retained : (db.reconciles scanner (first :: rest) false → db.Retained (first :: rest)) ↔
      ((first.height = 0 ∨ first.height = db.birthHeight) →
        db.scannedTo ≤ ((first :: rest).getLast (by simp)).height →
        (∀ output ∈ db.outputs, output.height ≤ ((first :: rest).getLast (by simp)).height) →
        db.Retained (first :: rest)) := by
    rw [whole, and_imp, and_imp]
  constructor
  · rintro ⟨outputs, receipts, heights⟩
    have agree := outputs_agree_iff.mp outputs
    exact ⟨retained.mp agree, (receipts_agree_iff ok agree).mp receipts,
      (heights_agree_iff ok consecutive).mp heights⟩
  · rintro ⟨whole, listed, atEnd⟩
    have agree := retained.mpr whole
    exact ⟨outputs_agree_iff.mpr agree, (receipts_agree_iff ok agree).mpr listed,
      (heights_agree_iff ok consecutive).mpr atEnd⟩

end WalletFile

namespace Wallet

variable {S : Sealing} {C : TransferCrypto P} {wallet : Wallet P}

/-- The wallet ingested the feed of these blocks, anchored or not. -/
def FedBlocks (S : Sealing) (wallet light : Wallet P) (first : Block) (rest : List Block) : Prop :=
  ∃ found,
    wallet.ingestScanPage S (scanFeed first.height (first :: rest)) = (.ok found, light) ∨
    wallet.ingestAnchoredScanPage S (scanFeed first.height (first :: rest)) first.height
      (first.hash P).toHex (((first :: rest).getLast (List.cons_ne_nil first rest)).hash P).toHex =
        (.ok found, light)

theorem FedBlocks.db {light : Wallet P} {first : Block} {rest : List Block}
    (fed : wallet.FedBlocks S light first rest) :
    light.db.outputs = (wallet.db.ingestScanPage (wallet.scanner S)
        (scanFeed first.height (first :: rest))).1.outputs ∧
      light.db.history = (wallet.db.ingestScanPage (wallet.scanner S)
        (scanFeed first.height (first :: rest))).1.history := by
  obtain ⟨found, plain | anchored⟩ := fed
  · simp only [ingestScanPage, Prod.mk.injEq] at plain
    rw [← plain.2]
    exact ⟨rfl, rfl⟩
  · unfold ingestAnchoredScanPage at anchored
    split at anchored
    · simp at anchored
    · split at anchored
      · simp at anchored
      · split at anchored
        · simp at anchored
        · next ingested =>
            simp only [ingestScanPage, Prod.mk.injEq] at ingested anchored
            rw [← anchored.2, ← ingested.2]
            exact ⟨rfl, rfl⟩

/-- Take any wallet, and any linked run of blocks that it scans as blocks, or ingests as
the page that a node serves for them.  Both leave the same outputs, receipts and heights of
sends exactly if the run agrees. -/
theorem feed_agrees_iff (grown : wallet.Grown S C) {first : Block} {rest : List Block}
    (linked : Block.Linked P (first :: rest)) {found : Nat} {full light : Wallet P}
    (scanned : wallet.scanBlocks S (first :: rest) = (.ok found, full))
    (fed : wallet.FedBlocks S light first rest) :
    WalletFile.SameScan wallet.db full.db light.db ↔
      WalletFile.Agrees (wallet.scanner S) wallet.db first rest := by
  obtain ⟨outputs, history⟩ := fed.db
  obtain ⟨_, _, _, rfl⟩ := scanBlocks_eq_ok.mp scanned
  rw [← WalletFile.sameScan_iff grown.historyOk linked.consecutive]
  constructor
  · rintro ⟨sameOutputs, sameReceipts, sameHeights⟩
    rw [outputs] at sameOutputs
    rw [history] at sameReceipts sameHeights
    exact ⟨sameOutputs, sameReceipts, sameHeights⟩
  · rintro ⟨sameOutputs, sameReceipts, sameHeights⟩
    rw [← outputs] at sameOutputs
    rw [← history] at sameReceipts sameHeights
    exact ⟨sameOutputs, sameReceipts, sameHeights⟩

end Wallet

namespace Sample

/-- The wallet after the block that pays it. -/
def started : Wallet primitives :=
  (wallet.scanBlocks sealing [paidBlock0]).2

theorem started_grown : started.Grown sealing crypto :=
  ⟨.devnet, keys, 0, [.scanBlocks [paidBlock0]], rfl⟩

end Sample

namespace Wallet

/-- A page with nothing but its first block agrees with the scan of it. -/
theorem feed_agrees_started :
    WalletFile.SameScan Sample.started.db
      (Sample.started.scanBlocks Sample.sealing [Sample.paidBlock0]).2.db
      (Sample.started.ingestScanPage Sample.sealing
        (scanFeed Sample.paidBlock0.height [Sample.paidBlock0])).2.db := by
  have scanned : (Sample.started.scanBlocks Sample.sealing [Sample.paidBlock0]).1 = .ok 0 := by
    decide +kernel
  have ingested : (Sample.started.ingestScanPage Sample.sealing
      (scanFeed Sample.paidBlock0.height [Sample.paidBlock0])).1 = .ok 0 := by
    decide +kernel
  have agrees : WalletFile.Agrees (Sample.started.scanner Sample.sealing) Sample.started.db
      Sample.paidBlock0 [] := by
    have parts : Sample.started.db.Retained [Sample.paidBlock0] ∧
        Sample.started.db.ListsReceipts (Sample.started.scanner Sample.sealing)
          [Sample.paidBlock0] ∧
        ∀ entry ∈ Sample.started.db.history, ¬entry.isPendingSend := by
      decide +kernel
    exact ⟨fun _ _ _ => parts.1, parts.2.1,
      fun entry member pending => absurd pending (parts.2.2 entry member)⟩
  exact (@feed_agrees_iff _ Sample.sealing Sample.crypto Sample.started Sample.started_grown
    Sample.paidBlock0 [] (List.isChain_singleton _) 0 _ _ (Guard.eq_of_fst scanned)
    ⟨0, .inl (Guard.eq_of_fst ingested)⟩).mpr agrees

/-- A page in which the wallet spends a coin hides the payment of somebody else that the
scan of the same blocks lists. -/
theorem feed_hides_receipt :
    (LedgerState.forNetwork Sample.primitives .devnet).Accepts Sample.paidChain3.proofCtx
        Sample.paidChain3.firstHeight Sample.paidChain3.blocks ∧
      Sample.paidChain3.blocks = [Sample.paidBlock0, Sample.paidBlock1, Sample.paidBlock2] ∧
      (Sample.started.scanBlocks Sample.sealing Sample.paidChain3.blocks).1 = .ok 1 ∧
      (Sample.started.ingestScanPage Sample.sealing
        (scanFeed 0 Sample.paidChain3.blocks)).1 = .ok 1 ∧
      ¬WalletFile.SameScan Sample.started.db
        (Sample.started.scanBlocks Sample.sealing Sample.paidChain3.blocks).2.db
        (Sample.started.ingestScanPage Sample.sealing
          (scanFeed 0 Sample.paidChain3.blocks)).2.db := by
  have facts : (LedgerState.forNetwork Sample.primitives .devnet).Accepts
        Sample.paidChain3.proofCtx Sample.paidChain3.firstHeight Sample.paidChain3.blocks ∧
      Sample.paidChain3.blocks = [Sample.paidBlock0, Sample.paidBlock1, Sample.paidBlock2] ∧
      (Sample.started.scanBlocks Sample.sealing Sample.paidChain3.blocks).1 = .ok 1 ∧
      (Sample.started.ingestScanPage Sample.sealing
        (scanFeed 0 Sample.paidChain3.blocks)).1 = .ok 1 ∧
      (WalletFile.receipts (Sample.started.ingestScanPage Sample.sealing
        (scanFeed 0 Sample.paidChain3.blocks)).2.db.history).length ≠
        (WalletFile.receipts (Sample.started.scanBlocks Sample.sealing
          Sample.paidChain3.blocks).2.db.history).length := by
    decide +kernel
  apply facts.imp_right
  apply And.imp_right
  apply And.imp_right
  apply And.imp_right
  exact fun counts same => counts same.receipts.length_eq

end Wallet

end Nightfall
