import Nightfall.Ledger.Undo
import Nightfall.Consensus.Chain

/-!
# A rejected block leaves the chain alone

Applying a block mutates the live ledger before the roots are compared.  On a ledger
whose running sum describes its entries the roll-back is exact, so the whole
operation is a verdict computed from the chain followed by one extension.
-/

namespace Nightfall

variable {P : Primitives}

namespace Chain

/-- The verdict on a block in its stored form, with the ledger and the undo it leads to. -/
def verdict (chain : Chain P) (block : Block) (nowUnix : UInt64) (verifyPow : Bool) :
    Except ConsensusError (LedgerState P × StateUndo) := do
  chain.checkBlock block nowUnix verifyPow
  let undo ← (chain.ledger.captureUndo block.body).mapError .ledger
  let subsidy := subsidyAt chain.ledger block.header.height
  let ledger ← (Guard.toExcept
    (chain.ledger.applyBlock block.body block.header.height subsidy chain.proofCtx)).mapError
      .ledger
  Guard.refuse (ledger.utxoRoot ≠ block.header.utxoRoot) .badUtxoRoot
  Guard.refuse (ledger.kernelSum ≠ block.header.kernelSum) .badKernelSum
  .ok (ledger, undo)

/-- The verdict of a replay from the own file. -/
def ownDiskVerdict (chain : Chain P) (block : Block) :
    Except ConsensusError (LedgerState P × StateUndo) := do
  chain.checkLinkage block
  let undo ← (chain.ledger.captureUndo block.body).mapError .ledger
  let subsidy := subsidyAt chain.ledger block.header.height
  let ledger ← (Guard.toExcept
    (chain.ledger.applyBlockStateOnly block.body block.header.height subsidy)).mapError .ledger
  .ok (ledger, undo)

/-- Extend the chain by a block when the verdict is favourable. -/
def settle (chain : Chain P) (block : Block) :
    Except ConsensusError (LedgerState P × StateUndo) → Guard.Outcome ConsensusError (Chain P)
  | .error error => (.error error, chain)
  | .ok (ledger, undo) => (.ok (), chain.extend block ledger undo)

theorem settle_atomic {chain : Chain P} {block : Block}
    {result : Except ConsensusError (LedgerState P × StateUndo)} {error : ConsensusError}
    (rejected : (chain.settle block result).1 = .error error) :
    (chain.settle block result).2 = chain := by
  cases result with
  | error other => rfl
  | ok accepted => simp [settle] at rejected

theorem settle_eq_ok {chain next : Chain P} {block : Block}
    {result : Except ConsensusError (LedgerState P × StateUndo)} :
    chain.settle block result = (.ok (), next) ↔
      ∃ ledger undo, result = .ok (ledger, undo) ∧ next = chain.extend block ledger undo := by
  cases result with
  | error other => simp [settle]
  | ok accepted =>
      obtain ⟨ledger, undo⟩ := accepted
      simp only [settle, Prod.mk.injEq, true_and, Except.ok.injEq]
      constructor
      · rintro rfl
        exact ⟨ledger, undo, ⟨rfl, rfl⟩, rfl⟩
      · rintro ⟨_, _, ⟨rfl, rfl⟩, rfl⟩
        rfl

/-- What an accepted block does to the ledger, and the record that takes it back. -/
theorem rewind_of_applyBlock {ledger next : LedgerState P} (tracks : ledger.utxos.Tracks)
    {body : BlockBody} {height expectedReward : UInt64} {ctx : Bytes} {undo : StateUndo}
    (captured : ledger.captureUndo body = .ok undo)
    (applied : ledger.applyBlock body height expectedReward ctx = (.ok (), next)) :
    next.rewind undo = ledger := by
  obtain ⟨present, nodup, rfl⟩ := LedgerState.captureUndo_eq_ok.mp captured
  obtain ⟨coinbase, offset, staged, valid, rfl⟩ := (LedgerState.applyBlock_ok_iff tracks).mp applied
  have record : ledger.undoRecord body = ledger.undoRecord (ledger.visibleBody body height) :=
    LedgerState.undoRecord_congr (by simp) (by simp)
  rw [record]
  exact LedgerState.rewind_commit tracks valid.spent_present valid.spent_nodup
    valid.overwritesNothing height staged.kernels staged.supply

/-- Applying a block is its verdict followed by one extension of the chain. -/
theorem applyBlockInner_eq {chain : Chain P} (tracks : chain.ledger.utxos.Tracks)
    (block : Block) (nowUnix : UInt64) (verifyPow : Bool) :
    chain.applyBlockInner block nowUnix verifyPow =
      chain.settle (chain.storedForm block)
        (chain.verdict (chain.storedForm block) nowUnix verifyPow) := by
  simp only [applyBlockInner, verdict]
  generalize chain.storedForm block = stored
  cases chain.checkBlock stored nowUnix verifyPow with
  | error error => rfl
  | ok passed =>
      cases captured : chain.ledger.captureUndo stored.body with
      | error error => rfl
      | ok undo =>
          have atomic := LedgerState.applyBlock_atomic tracks stored.body stored.header.height
            (subsidyAt chain.ledger stored.header.height) chain.proofCtx
          cases applied : chain.ledger.applyBlock stored.body stored.header.height
              (subsidyAt chain.ledger stored.header.height) chain.proofCtx with
          | mk result ledger =>
              cases result with
              | error error =>
                  have unchanged : ledger = chain.ledger := by
                    simpa [applied] using atomic error (by simp [applied])
                  subst unchanged
                  rfl
              | ok done =>
                  have undone := rewind_of_applyBlock tracks captured applied
                  simp only [undone]
                  by_cases root : ledger.utxoRoot = stored.header.utxoRoot
                  · by_cases sum : ledger.kernelSum = stored.header.kernelSum
                    · simp [root, sum, settle, Except.mapError, Guard.toExcept, bind,
                        Except.bind, Guard.refuse]
                    · simp [root, sum, settle, Except.mapError, Guard.toExcept, bind,
                        Except.bind, Guard.refuse]
                  · simp [root, settle, Except.mapError, Guard.toExcept, bind, Except.bind,
                      Guard.refuse]

/-- The replay from the own file is its verdict followed by one extension. -/
theorem applyBlockFromOwnDisk_eq (chain : Chain P) (block : Block) :
    chain.applyBlockFromOwnDisk block =
      chain.settle (chain.storedForm block)
        (chain.ownDiskVerdict (chain.storedForm block)) := by
  simp only [applyBlockFromOwnDisk, ownDiskVerdict]
  generalize chain.storedForm block = stored
  cases chain.checkLinkage stored with
  | error error => rfl
  | ok passed =>
      cases captured : chain.ledger.captureUndo stored.body with
      | error error => rfl
      | ok undo =>
          have atomic := LedgerState.applyBlockStateOnly_atomic chain.ledger stored.body
            stored.header.height (subsidyAt chain.ledger stored.header.height)
          cases applied : chain.ledger.applyBlockStateOnly stored.body stored.header.height
              (subsidyAt chain.ledger stored.header.height) with
          | mk result ledger =>
              cases result with
              | error error =>
                  have unchanged : ledger = chain.ledger := by
                    simpa [applied] using atomic error (by simp [applied])
                  subst unchanged
                  rfl
              | ok done => rfl

theorem applyBlock_eq {chain : Chain P} (tracks : chain.ledger.utxos.Tracks) (block : Block)
    (nowUnix : UInt64) :
    chain.applyBlock block nowUnix =
      chain.settle (chain.storedForm block)
        (chain.verdict (chain.storedForm block) nowUnix true) :=
  applyBlockInner_eq tracks block nowUnix true

/-! ## What an accepted block satisfies -/

/-- A block that full validation accepts, the ledger after it and its undo. -/
structure Accepted (chain : Chain P) (block : Block) (nowUnix : UInt64) (verifyPow : Bool)
    (ledger : LedgerState P) (undo : StateUndo) : Prop where
  checked : chain.checkBlock block nowUnix verifyPow = .ok ()
  captured : chain.ledger.captureUndo block.body = .ok undo
  applied : chain.ledger.applyBlock block.body block.header.height
    (subsidyAt chain.ledger block.header.height) chain.proofCtx = (.ok (), ledger)
  utxoRoot : ledger.utxoRoot = block.header.utxoRoot
  kernelSum : ledger.kernelSum = block.header.kernelSum

theorem verdict_eq_ok {chain : Chain P} {block : Block} {nowUnix : UInt64} {verifyPow : Bool}
    {ledger : LedgerState P} {undo : StateUndo} :
    chain.verdict block nowUnix verifyPow = .ok (ledger, undo) ↔
      chain.Accepted block nowUnix verifyPow ledger undo := by
  simp only [verdict, Guard.bind_eq_ok, Guard.mapError_eq_ok, Guard.refuse_eq_ok,
    Guard.toExcept_eq_ok, not_not, Except.ok.injEq, Prod.mk.injEq]
  constructor
  · rintro ⟨_, checked, captured, found, reached, applied, _, root, _, sum, rfl, rfl⟩
    exact ⟨checked, found, applied, root, sum⟩
  · intro accepted
    exact ⟨(), accepted.checked, undo, accepted.captured, ledger, accepted.applied, (),
      accepted.utxoRoot, (), accepted.kernelSum, rfl, rfl⟩

/-- A block that a replay accepts, the ledger after it and its undo. -/
structure Replayed (chain : Chain P) (block : Block) (ledger : LedgerState P)
    (undo : StateUndo) : Prop where
  linked : chain.checkLinkage block = .ok ()
  captured : chain.ledger.captureUndo block.body = .ok undo
  applied : chain.ledger.applyBlockStateOnly block.body block.header.height
    (subsidyAt chain.ledger block.header.height) = (.ok (), ledger)

theorem ownDiskVerdict_eq_ok {chain : Chain P} {block : Block} {ledger : LedgerState P}
    {undo : StateUndo} :
    chain.ownDiskVerdict block = .ok (ledger, undo) ↔ chain.Replayed block ledger undo := by
  simp only [ownDiskVerdict, Guard.bind_eq_ok, Guard.mapError_eq_ok, Guard.toExcept_eq_ok,
    Except.ok.injEq, Prod.mk.injEq]
  constructor
  · rintro ⟨_, linked, captured, found, reached, applied, rfl, rfl⟩
    exact ⟨linked, found, applied⟩
  · intro replayed
    exact ⟨(), replayed.linked, undo, replayed.captured, ledger, replayed.applied, rfl, rfl⟩

@[simp] theorem extend_ledger (chain : Chain P) (block : Block) (ledger : LedgerState P)
    (undo : StateUndo) : (chain.extend block ledger undo).ledger = ledger := rfl

@[simp] theorem extend_network (chain : Chain P) (block : Block) (ledger : LedgerState P)
    (undo : StateUndo) : (chain.extend block ledger undo).network = chain.network := rfl

@[simp] theorem extend_blocks (chain : Chain P) (block : Block) (ledger : LedgerState P)
    (undo : StateUndo) : (chain.extend block ledger undo).blocks = chain.blocks ++ [block] := rfl

@[simp] theorem extend_headers (chain : Chain P) (block : Block) (ledger : LedgerState P)
    (undo : StateUndo) : (chain.extend block ledger undo).headers =
      chain.headers ++ [CompactHeader.fromBlock P block] := rfl

@[simp] theorem extend_firstHeight (chain : Chain P) (block : Block) (ledger : LedgerState P)
    (undo : StateUndo) : (chain.extend block ledger undo).firstHeight = chain.firstHeight := rfl

@[simp] theorem extend_horizon (chain : Chain P) (block : Block) (ledger : LedgerState P)
    (undo : StateUndo) : (chain.extend block ledger undo).horizon = chain.horizon := rfl

@[simp] theorem extend_horizonWork (chain : Chain P) (block : Block) (ledger : LedgerState P)
    (undo : StateUndo) : (chain.extend block ledger undo).horizonWork = chain.horizonWork := rfl

@[simp] theorem extend_totalWork (chain : Chain P) (block : Block) (ledger : LedgerState P)
    (undo : StateUndo) : (chain.extend block ledger undo).totalWork =
      Machine.saturatingAdd128 chain.totalWork block.work := by
  simp only [extend, pushBlock, rememberUndo]

@[simp] theorem extend_undos (chain : Chain P) (block : Block) (ledger : LedgerState P)
    (undo : StateUndo) : (chain.extend block ledger undo).undos =
      trimUndos (chain.undos ++ [⟨block.work, undo⟩]) := by
  simp only [extend, pushBlock, rememberUndo]

end Chain

end Nightfall
