import Nightfall.Wallet.Branch

/-!
# What one pass over the blocks computes

Closed forms of the values that the loop of `scanBlocksInner` accumulates.
-/

namespace Nightfall

variable {P : Primitives}

/-- The commitments that a list of blocks consumes. -/
def Block.consumed (blocks : List Block) : List Commitment :=
  blocks.flatMap fun block => block.body.inputCommits

/-- The commitments that a list of blocks creates. -/
def Block.created (blocks : List Block) : List Commitment :=
  blocks.flatMap fun block => block.body.outputCommits

@[simp] theorem Block.consumed_append (front back : List Block) :
    Block.consumed (front ++ back) = Block.consumed front ++ Block.consumed back := by
  simp [Block.consumed]

@[simp] theorem Block.created_append (front back : List Block) :
    Block.created (front ++ back) = Block.created front ++ Block.created back := by
  simp [Block.created]

namespace WalletFile

/-- The sends that a list of blocks settles, after `spent` was consumed and `confirmed`
was settled. -/
def confirmationsFrom (pending : List (Text × List Commitment)) (spent : List Commitment)
    (confirmed : List (Text × UInt64 × UInt64)) : List Block → List (Text × UInt64 × UInt64)
  | [] => confirmed
  | block :: rest =>
      let spent := spent ++ block.body.inputCommits
      confirmationsFrom pending spent
        (settle pending spent block.height block.header.timestampUnix confirmed) rest

/-- The sends that a scan of these blocks confirms, each with the block that settles it. -/
def confirmations (db : WalletFile) (blocks : List Block) : List (Text × UInt64 × UInt64) :=
  confirmationsFrom db.pendingSends [] [] blocks

section Pass

variable (scanner : Scanner P) (known : List Commitment)
  (pending : List (Text × List Commitment))

theorem foldl_passBlock_outputs (pass : Pass) (blocks : List Block) :
    (blocks.foldl (passBlock scanner known pending) pass).outputs =
      pass.outputs ++ blocks.flatMap (ownedOf scanner known) := by
  induction blocks generalizing pass with
  | nil => simp
  | cons block rest ih => simp [ih, passBlock]

theorem foldl_passBlock_spent (pass : Pass) (blocks : List Block) :
    (blocks.foldl (passBlock scanner known pending) pass).spent =
      pass.spent ++ Block.consumed blocks := by
  induction blocks generalizing pass with
  | nil => simp [Block.consumed]
  | cons block rest ih => simp [ih, passBlock, Block.consumed]

theorem foldl_passBlock_newHistory (pass : Pass) (blocks : List Block) :
    (blocks.foldl (passBlock scanner known pending) pass).newHistory =
      pass.newHistory ++ blocks.flatMap (incomingOf scanner known) := by
  induction blocks generalizing pass with
  | nil => simp
  | cons block rest ih => simp [ih, passBlock]

theorem foldl_passBlock_highest (pass : Pass) (blocks : List Block) :
    (blocks.foldl (passBlock scanner known pending) pass).highest =
      blocks.foldl (fun highest block => max highest block.height) pass.highest := by
  induction blocks generalizing pass with
  | nil => rfl
  | cons block rest ih => simp [ih, passBlock]

theorem foldl_passBlock_confirmed (pass : Pass) (blocks : List Block) :
    (blocks.foldl (passBlock scanner known pending) pass).confirmed =
      confirmationsFrom pending pass.spent pass.confirmed blocks := by
  induction blocks generalizing pass with
  | nil => rfl
  | cons block rest ih => simp [ih, passBlock, confirmationsFrom]

end Pass

variable {scanner : Scanner P} {db : WalletFile} {highest : UInt64} {blocks : List Block}

@[simp] theorem passOver_outputs :
    (db.passOver scanner highest blocks).outputs =
      db.outputs ++ blocks.flatMap (ownedOf scanner db.known) := by
  simp [passOver, foldl_passBlock_outputs, startPass]

@[simp] theorem passOver_spent :
    (db.passOver scanner highest blocks).spent = Block.consumed blocks := by
  simp [passOver, foldl_passBlock_spent, startPass]

@[simp] theorem passOver_newHistory :
    (db.passOver scanner highest blocks).newHistory =
      blocks.flatMap (incomingOf scanner db.known) := by
  simp [passOver, foldl_passBlock_newHistory, startPass]

@[simp] theorem passOver_highest :
    (db.passOver scanner highest blocks).highest =
      blocks.foldl (fun highest block => max highest block.height) highest := by
  simp [passOver, foldl_passBlock_highest, startPass]

@[simp] theorem passOver_confirmed :
    (db.passOver scanner highest blocks).confirmed = db.confirmations blocks := by
  simp [passOver, foldl_passBlock_confirmed, startPass, confirmations]

/-! ## The parts of a scanned state -/

/-- The outputs before a possible reconciliation. -/
def mergedOutputs (scanner : Scanner P) (db : WalletFile) (blocks : List Block) :
    List OwnedOutput :=
  markSpent (Block.consumed blocks) (db.outputs ++ blocks.flatMap (ownedOf scanner db.known))

/-- Does this scan reconcile the stored state with the blocks? -/
def reconciles (scanner : Scanner P) (db : WalletFile) (blocks : List Block)
    (forceCanonical : Bool) : Bool :=
  forceCanonical || coversCanonicalHistory blocks db.birthHeight db.scannedTo
    (mergedOutputs scanner db blocks)

/-- The activity list before confirmations and discoveries. -/
def settledHistory (scanner : Scanner P) (db : WalletFile) (blocks : List Block)
    (forceCanonical : Bool) : List HistoryEntry :=
  if reconciles scanner db blocks forceCanonical then
    (reconcileWith blocks (Block.consumed blocks)
      { db with outputs := mergedOutputs scanner db blocks }).history
  else db.history

section Inner

variable (scanner : Scanner P) (db : WalletFile) (blocks : List Block) (force : Bool)

theorem scanBlocksInner_scannedTo :
    (db.scanBlocksInner scanner blocks force).1.scannedTo =
      blocks.foldl (fun highest block => max highest block.height)
        (if force then (blocks.head?.map Block.height).getD 0 else db.scanFrom) := by
  simp [scanBlocksInner]

theorem scanBlocksInner_outputs :
    (db.scanBlocksInner scanner blocks force).1.outputs =
      if db.reconciles scanner blocks force then
        (reconcileWith blocks (Block.consumed blocks)
          { db with outputs := db.mergedOutputs scanner blocks }).outputs
      else db.mergedOutputs scanner blocks := by
  simp only [scanBlocksInner, settleAgainst, reconciles, mergedOutputs, passOver_spent,
    passOver_outputs, Bool.or_eq_true]
  split <;> rfl

theorem scanBlocksInner_history :
    (db.scanBlocksInner scanner blocks force).1.history =
      sortHistory (appendNew sameIncoming (blocks.flatMap (incomingOf scanner db.known))
        (confirmAll (db.confirmations blocks) (db.settledHistory scanner blocks force))) := by
  simp only [scanBlocksInner, settleAgainst, settledHistory, reconciles, mergedOutputs, passOver_spent,
    passOver_outputs, passOver_newHistory, passOver_confirmed, Bool.or_eq_true]
  split <;> rfl

theorem scanBlocksInner_scannedTip :
    (db.scanBlocksInner scanner blocks force).1.scannedTip =
      anchorAt P blocks (db.scanBlocksInner scanner blocks force).1.scannedTo db.scannedTip := by
  simp [scanBlocksInner]

@[simp] theorem scanBlocksInner_birthHeight :
    (db.scanBlocksInner scanner blocks force).1.birthHeight = db.birthHeight := by
  simp [scanBlocksInner]

@[simp] theorem scanBlocksInner_reserved :
    (db.scanBlocksInner scanner blocks force).1.reserved = db.reserved := by
  simp [scanBlocksInner]

@[simp] theorem scanBlocksInner_swapJournal :
    (db.scanBlocksInner scanner blocks force).1.swapJournal = db.swapJournal := by
  simp [scanBlocksInner]

end Inner

theorem mem_discovered {known : List Commitment} {block : Block} {output : Output}
    {found : DiscoveredOutput P} :
    (output, found) ∈ discovered scanner known block ↔
      output ∈ block.body.outputs ∧ output.commit ∉ known ∧
        scanner.scanOutput output = some found := by
  simp only [discovered, List.mem_filterMap]
  constructor
  · rintro ⟨served, member, scanned⟩
    split at scanned
    · simp at scanned
    · next unknown =>
        obtain ⟨_, same, pair⟩ := Option.map_eq_some_iff.mp scanned
        cases pair
        exact ⟨member, unknown, same⟩
  · rintro ⟨member, unknown, scanned⟩
    exact ⟨output, member, by simp [unknown, scanned]⟩

theorem mem_ownedOf {known : List Commitment} {block : Block} {owned : OwnedOutput} :
    owned ∈ ownedOf scanner known block ↔
      ∃ output ∈ block.body.outputs, output.commit ∉ known ∧
        ∃ found, scanner.scanOutput output = some found ∧
          owned = found.owned block.height output.features.isCoinbase := by
  simp only [ownedOf, List.mem_map, Prod.exists, mem_discovered]
  constructor
  · rintro ⟨output, found, ⟨member, unknown, scanned⟩, rfl⟩
    exact ⟨output, member, unknown, found, scanned, rfl⟩
  · rintro ⟨output, member, unknown, found, scanned, rfl⟩
    exact ⟨output, found, ⟨member, unknown, scanned⟩, rfl⟩

theorem mem_incomingOf {known : List Commitment} {block : Block} {entry : HistoryEntry} :
    entry ∈ incomingOf scanner known block ↔
      ∃ output ∈ block.body.outputs, output.commit ∉ known ∧
        ∃ found, scanner.scanOutput output = some found ∧
          (output.features.isCoinbase ∨ ¬spendsKnown known block) ∧
          entry = found.incoming block.height block.header.timestampUnix
            output.features.isCoinbase := by
  simp only [incomingOf, List.mem_map, List.mem_filter, Prod.exists, mem_discovered,
    Bool.or_eq_true, Bool.not_eq_true', Bool.not_eq_true]
  constructor
  · rintro ⟨output, found, ⟨⟨member, unknown, scanned⟩, listed⟩, rfl⟩
    exact ⟨output, member, unknown, found, scanned, listed, rfl⟩
  · rintro ⟨output, member, unknown, found, scanned, listed, rfl⟩
    exact ⟨output, found, ⟨⟨member, unknown, scanned⟩, listed⟩, rfl⟩

theorem ownedOf_height {known : List Commitment} {block : Block} {owned : OwnedOutput}
    (member : owned ∈ ownedOf scanner known block) : owned.height = block.height := by
  obtain ⟨_, _, _, _, _, rfl⟩ := mem_ownedOf.mp member
  rfl

@[simp] theorem markSpent_heights (spent : List Commitment) (outputs : List OwnedOutput) :
    (markSpent spent outputs).map OwnedOutput.height = outputs.map OwnedOutput.height := by
  rw [markSpent, List.map_map]
  apply List.map_congr_left
  intro output _
  simp only [Function.comp_apply]
  split <;> rfl

@[simp] theorem markSpent_commits (spent : List Commitment) (outputs : List OwnedOutput) :
    (markSpent spent outputs).map OwnedOutput.commit = outputs.map OwnedOutput.commit := by
  rw [markSpent, List.map_map]
  apply List.map_congr_left
  intro output _
  simp only [Function.comp_apply]
  split <;> rfl

end WalletFile

end Nightfall
