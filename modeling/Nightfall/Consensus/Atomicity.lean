import Nightfall.Consensus.Verdict
import Nightfall.Sample

/-!
# Atomicity of the block operations

Every chain that the public operations reach has ledgers whose running sums describe
their entries.  On such a chain a failed `applyBlock` or `applyBlockFromOwnDisk`
leaves the whole value as it was.
-/

namespace Nightfall

variable {P : Primitives}

namespace Chain

/-! ## Induction rules for the loops -/

section Loops

variable {holds : Chain P → Prop} {nowUnix : UInt64}

/-- What every block keeps, an ingestion keeps. -/
theorem ingestFrom_induction
    (applied : ∀ chain block, holds chain → holds (chain.applyBlock block nowUnix).2)
    {chain : Chain P} (start : holds chain) (count : Nat) (blocks : List Block) :
    holds (ingestFrom nowUnix count chain blocks).2 := by
  induction blocks generalizing chain count with
  | nil => exact start
  | cons block rest ih =>
      have after := applied chain block start
      simp only [ingestFrom]
      split
      next next accepted =>
          rw [accepted] at after
          exact ih after _
      next left badPrev =>
          rw [badPrev] at after
          exact after
      next left badHeight =>
          rw [badHeight] at after
          exact after
      next error left _ _ rejected =>
          rw [rejected] at after
          split <;> exact after

/-- What every accepted block keeps, the replay of a candidate keeps. -/
theorem replayFrom_induction
    (replayed : ∀ chain block next, holds chain →
      chain.applyBlockFromOwnDisk block = (.ok (), next) → holds next)
    (applied : ∀ chain block next, holds chain →
      chain.applyBlock block nowUnix = (.ok (), next) → holds next)
    {trustedPrefix index : Nat} {chain last : Chain P} {blocks : List Block}
    (start : holds chain)
    (rebuilt : replayFrom trustedPrefix nowUnix index chain blocks = .ok last) : holds last := by
  induction blocks generalizing chain index with
  | nil =>
      obtain rfl := Except.ok.inj rebuilt
      exact start
  | cons block rest ih =>
      simp only [replayFrom] at rebuilt
      split at rebuilt
      · simp only [Guard.bind_eq_ok, Guard.toExcept_eq_ok] at rebuilt
        obtain ⟨next, accepted, rebuiltRest⟩ := rebuilt
        exact ih (replayed chain block next start accepted) rebuiltRest
      · simp only [Guard.bind_eq_ok, Guard.toExcept_eq_ok] at rebuilt
        obtain ⟨_, _, next, accepted, rebuiltRest⟩ := rebuilt
        exact ih (applied chain block next start accepted) rebuiltRest

/-- What every accepted block keeps, a suffix keeps. -/
theorem applyAll_induction
    (applied : ∀ chain block next, holds chain →
      chain.applyBlock block nowUnix = (.ok (), next) → holds next)
    {chain last : Chain P} {blocks : List Block} (start : holds chain)
    (reached : applyAll nowUnix chain blocks = .ok last) : holds last := by
  induction blocks generalizing chain with
  | nil =>
      obtain rfl := Except.ok.inj reached
      exact start
  | cons block rest ih =>
      simp only [applyAll, Guard.bind_eq_ok, Guard.toExcept_eq_ok] at reached
      obtain ⟨next, accepted, reachedRest⟩ := reached
      exact ih (applied chain block next start accepted) reachedRest

end Loops

/-- A rebuilt chain is the replay of its blocks from genesis. -/
theorem replayFrom_of_rebuild {network : NetworkId} {blocks : List Block}
    {trustedPrefix : Nat} {nowUnix : UInt64} {rebuilt : Chain P}
    (ok : rebuildFromBlocksTrustedPrefix network blocks trustedPrefix nowUnix = .ok rebuilt) :
    replayFrom (max trustedPrefix (assumeValidTo P network blocks)) nowUnix 0
      (newFair P network) blocks = .ok rebuilt := by
  simp only [rebuildFromBlocksTrustedPrefix, Guard.bind_eq_ok, Except.ok.injEq] at ok
  obtain ⟨_, replayed, _, _, rfl⟩ := ok
  exact replayed

theorem replayFrom_of_rebuildPruned {network : NetworkId} {base : PrunedBase P}
    {blocks : List Block} {trustedPrefix : Nat} {nowUnix : UInt64} {rebuilt : Chain P}
    (ok : rebuildFromPrunedBase network base blocks trustedPrefix nowUnix = .ok rebuilt) :
    replayFrom trustedPrefix nowUnix 0 (fromPrunedBase network base) blocks = .ok rebuilt := by
  simp only [rebuildFromPrunedBase, Guard.bind_eq_ok, Except.ok.injEq] at ok
  obtain ⟨_, replayed, _, _, rfl⟩ := ok
  exact replayed

/-- A winning candidate was rebuilt, holds the supply equation and has more work. -/
theorem evaluateReorgAt_eq_some {network : NetworkId} {ourWork : Nat}
    {ourHashes : List Hash256} {base : Option (PrunedBase P)} {blocks : List Block}
    {nowUnix : UInt64} {candidate : Chain P} :
    evaluateReorgAt network ourWork ourHashes base blocks nowUnix = .ok (some candidate) ↔
      (∃ first rest, blocks = first :: rest ∧
        first.header.height.toNat = (base.map PrunedBase.firstHeight).getD 0) ∧
      ourWork < (base.map PrunedBase.horizonWork).getD 0 + totalBlockWork blocks ∧
      (base.map PrunedBase.firstHeight).getD 0 ≤ ourHashes.length ∧
      ourHashes.length - ((base.map PrunedBase.firstHeight).getD 0 +
        commonPrefix P (ourHashes.drop ((base.map PrunedBase.firstHeight).getD 0)) blocks) ≤
          maxReorgDepth ∧
      rebuildCandidate network base blocks
        (commonPrefix P (ourHashes.drop ((base.map PrunedBase.firstHeight).getD 0)) blocks)
        ((base.map PrunedBase.firstHeight).getD 0 +
          commonPrefix P (ourHashes.drop ((base.map PrunedBase.firstHeight).getD 0)) blocks)
        nowUnix = .ok candidate ∧
      candidate.verifySupply = .ok () ∧ ourWork < candidate.totalWork := by
  cases blocks with
  | nil => simp [evaluateReorgAt]
  | cons first rest =>
      simp only [evaluateReorgAt]
      generalize (base.map PrunedBase.firstHeight).getD 0 = start
      generalize (base.map PrunedBase.horizonWork).getD 0 = baseWork
      by_cases height : first.header.height.toNat = start
      · by_cases claimed : baseWork + totalBlockWork (first :: rest) ≤ ourWork
        · simp [height, claimed]
        · by_cases short : ourHashes.length < start
          · simp [height, claimed, short]
          · by_cases deep : ourHashes.length -
                (start + commonPrefix P (ourHashes.drop start) (first :: rest)) > maxReorgDepth
            · simp only [height, claimed, short, deep, ne_eq, not_true_eq_false, if_false, if_true,
                reduceCtorEq, false_iff]
              rintro ⟨_, _, _, shallow, _⟩
              exact absurd shallow (Nat.not_le.mpr deep)
            · simp only [height, claimed, short, deep, ne_eq, not_true_eq_false, if_false,
                Guard.bind_eq_ok, Except.ok.injEq]
              constructor
              · rintro ⟨rebuilt, built, _, supply, chosen⟩
                split at chosen
                next heavier =>
                    obtain rfl := Option.some.inj chosen
                    exact ⟨⟨first, rest, rfl, height⟩, by omega, by omega, by omega, built,
                      supply, heavier⟩
                next => contradiction
              · rintro ⟨_, _, _, _, built, supply, heavier⟩
                exact ⟨candidate, built, (), supply, by simp [heavier]⟩
      · simp [height]

/-! ## Reachable chains -/

/-- The chains that the public operations produce. -/
inductive Reachable : Chain P → Prop
  | newFair (network : NetworkId) : Reachable (newFair P network)
  | applyBlock {chain : Chain P} (block : Block) (nowUnix : UInt64) :
      Reachable chain → Reachable (chain.applyBlock block nowUnix).2
  | applyBlockLocallyTrusted {chain : Chain P} (block : Block) (nowUnix : UInt64) :
      Reachable chain → Reachable (chain.applyBlockLocallyTrusted block nowUnix).2
  | applyBlockFromOwnDisk {chain : Chain P} (block : Block) :
      Reachable chain → Reachable (chain.applyBlockFromOwnDisk block).2
  | tryIngestBlocks {chain : Chain P} (blocks : List Block) (nowUnix : UInt64) :
      Reachable chain → Reachable (chain.tryIngestBlocks blocks nowUnix).2
  | pruneKeep {chain : Chain P} (keep : Nat) :
      Reachable chain → Reachable (chain.pruneKeep keep).2
  | rebuilt {network : NetworkId} {blocks : List Block} {trustedPrefix : Nat}
      {nowUnix : UInt64} {chain : Chain P} :
      rebuildFromBlocksTrustedPrefix network blocks trustedPrefix nowUnix = .ok chain →
      Reachable chain
  | evaluated {chain candidate : Chain P} {blocks : List Block} {nowUnix : UInt64} :
      Reachable chain →
      evaluateReorgAt chain.network chain.totalWork chain.hashChain chain.prunedBase blocks
        nowUnix = .ok (some candidate) →
      Reachable candidate
  | adoptReorg {chain candidate : Chain P} :
      Reachable chain → Reachable candidate → Reachable (chain.adoptReorg candidate).2
  | maybeReorgTo {chain : Chain P} (blocks : List Block) (nowUnix : UInt64) :
      Reachable chain → Reachable (chain.maybeReorgTo blocks nowUnix).2
  | spliceSuffix {chain origin : Chain P} {ancestorHeight : Nat} {trial : SuffixTrial P}
      {suffix : List Block} {nowUnix : UInt64} {reorg : SuffixReorg P} :
      Reachable chain → Reachable origin →
      origin.prepareSuffixTrial ancestorHeight = .ok trial →
      finishSuffix trial suffix nowUnix = .ok (some reorg) →
      Reachable (chain.spliceSuffix reorg).2

/-- The running sums of the live ledger and of the horizon describe their entries. -/
structure Tracked (chain : Chain P) : Prop where
  ledger : chain.ledger.utxos.Tracks
  horizon : ∀ horizon, chain.horizon = some horizon → horizon.utxos.Tracks

theorem tracked_newFair (network : NetworkId) : (newFair P network).Tracked :=
  ⟨UtxoSet.tracks_empty, by simp [newFair]⟩

theorem Tracked.extend {chain : Chain P} (tracked : chain.Tracked) (block : Block)
    {ledger : LedgerState P} (tracks : ledger.utxos.Tracks) (undo : StateUndo) :
    (chain.extend block ledger undo).Tracked :=
  ⟨tracks, tracked.horizon⟩

theorem Accepted.tracks {chain : Chain P} {block : Block} {nowUnix : UInt64}
    {verifyPow : Bool} {ledger : LedgerState P} {undo : StateUndo}
    (accepted : chain.Accepted block nowUnix verifyPow ledger undo)
    (tracks : chain.ledger.utxos.Tracks) : ledger.utxos.Tracks := by
  have after := LedgerState.applyBlock_tracks tracks block.body block.header.height
    (subsidyAt chain.ledger block.header.height) chain.proofCtx
  rwa [accepted.applied] at after

theorem Replayed.tracks {chain : Chain P} {block : Block} {ledger : LedgerState P}
    {undo : StateUndo} (replayed : chain.Replayed block ledger undo)
    (tracks : chain.ledger.utxos.Tracks) : ledger.utxos.Tracks := by
  have after := LedgerState.applyBlockStateOnly_tracks tracks block.body block.header.height
    (subsidyAt chain.ledger block.header.height)
  rwa [replayed.applied] at after

theorem Tracked.applyBlockInner {chain : Chain P} (tracked : chain.Tracked) (block : Block)
    (nowUnix : UInt64) (verifyPow : Bool) :
    (chain.applyBlockInner block nowUnix verifyPow).2.Tracked := by
  rw [applyBlockInner_eq tracked.ledger]
  cases judged : chain.verdict (chain.storedForm block) nowUnix verifyPow with
  | error error => exact tracked
  | ok accepted =>
      exact tracked.extend _ ((verdict_eq_ok.mp judged).tracks tracked.ledger) _

theorem Tracked.applyBlockFromOwnDisk {chain : Chain P} (tracked : chain.Tracked)
    (block : Block) : (chain.applyBlockFromOwnDisk block).2.Tracked := by
  rw [applyBlockFromOwnDisk_eq]
  cases judged : chain.ownDiskVerdict (chain.storedForm block) with
  | error error => exact tracked
  | ok replayed =>
      exact tracked.extend _ ((ownDiskVerdict_eq_ok.mp judged).tracks tracked.ledger) _

theorem Tracked.replayFrom {trustedPrefix index : Nat} {nowUnix : UInt64}
    {chain last : Chain P} {blocks : List Block} (tracked : chain.Tracked)
    (rebuilt : replayFrom trustedPrefix nowUnix index chain blocks = .ok last) :
    last.Tracked := by
  refine replayFrom_induction ?_ ?_ tracked rebuilt
  · intro current block next holds accepted
    have after := holds.applyBlockFromOwnDisk block
    rwa [accepted] at after
  · intro current block next holds accepted
    have after := holds.applyBlockInner block nowUnix true
    rw [Chain.applyBlock] at accepted
    rwa [accepted] at after

theorem advanceHorizon_tracks {reached : LedgerState P × Nat} (tracks : reached.1.utxos.Tracks)
    (blocks : List Block) : (advanceHorizon reached blocks).2.1.utxos.Tracks := by
  induction blocks generalizing reached with
  | nil => exact tracks
  | cons block rest ih =>
      obtain ⟨horizon, work⟩ := reached
      have after := LedgerState.applyBlockStateOnly_tracks tracks block.body
        block.header.height (subsidyAt horizon block.header.height)
      simp only [advanceHorizon]
      split
      next error left failed =>
          rw [failed] at after
          exact after
      next next advanced =>
          rw [advanced] at after
          exact ih after

theorem Tracked.pruneKeep {chain : Chain P} (tracked : chain.Tracked) (keep : Nat) :
    (chain.pruneKeep keep).2.Tracked := by
  simp only [Chain.pruneKeep]
  split
  · exact tracked
  · have startTracks : chain.horizonStart.1.utxos.Tracks := by
      unfold horizonStart
      split
      · exact UtxoSet.tracks_empty
      next horizon found => exact tracked.horizon horizon found
    have after := advanceHorizon_tracks startTracks
      (chain.blocks.take (chain.blocks.length - max keep 1))
    split
    next error horizon work failed =>
        rw [failed] at after
        refine ⟨tracked.ledger, ?_⟩
        rintro _ ⟨⟩
        exact after
    next horizon work advanced =>
        rw [advanced] at after
        refine ⟨tracked.ledger, ?_⟩
        rintro _ ⟨⟩
        exact after

theorem Tracked.fromPrunedBase {chain : Chain P} (tracked : chain.Tracked)
    (network : NetworkId) {base : PrunedBase P} (found : chain.prunedBase = some base) :
    (fromPrunedBase network base).Tracked := by
  have kept : base.horizon.utxos.Tracks := by
    unfold prunedBase at found
    split at found
    · contradiction
    · obtain ⟨horizon, present, rfl⟩ := Option.map_eq_some_iff.mp found
      exact tracked.horizon horizon present
  refine ⟨kept, ?_⟩
  rintro _ ⟨⟩
  exact kept

theorem Tracked.evaluated {chain candidate : Chain P} {blocks : List Block}
    {nowUnix : UInt64} (tracked : chain.Tracked)
    (won : evaluateReorgAt chain.network chain.totalWork chain.hashChain chain.prunedBase
      blocks nowUnix = .ok (some candidate)) : candidate.Tracked := by
  obtain ⟨_, _, _, _, built, _, _⟩ := evaluateReorgAt_eq_some.mp won
  cases found : chain.prunedBase with
  | none =>
      simp only [found, rebuildCandidate] at built
      exact (tracked_newFair chain.network).replayFrom (replayFrom_of_rebuild built)
  | some base =>
      simp only [found, rebuildCandidate] at built
      exact (tracked.fromPrunedBase chain.network found).replayFrom
        (replayFrom_of_rebuildPruned built)

theorem Tracked.maybeReorgTo {chain : Chain P} (tracked : chain.Tracked)
    (blocks : List Block) (nowUnix : UInt64) :
    (chain.maybeReorgTo blocks nowUnix).2.Tracked := by
  unfold Chain.maybeReorgTo
  split
  · exact tracked
  · exact tracked
  next candidate won =>
      simp only [Chain.adoptReorg]
      split
      · exact tracked.evaluated won
      · exact tracked

theorem foldl_rewind_tracks {ledger : LedgerState P} (tracks : ledger.utxos.Tracks)
    (undone : List TipUndo) :
    (undone.foldl (fun current undo => current.rewind undo.state) ledger).utxos.Tracks := by
  induction undone generalizing ledger with
  | nil => exact tracks
  | cons undo rest ih => exact ih (LedgerState.rewind_tracks tracks undo.state)

theorem prepareSuffixTrial_tracks {chain : Chain P} (tracks : chain.ledger.utxos.Tracks)
    {ancestorHeight : Nat} {trial : SuffixTrial P}
    (prepared : chain.prepareSuffixTrial ancestorHeight = .ok trial) : trial.trial.Tracked := by
  simp only [prepareSuffixTrial, Guard.bind_eq_ok, Except.ok.injEq] at prepared
  obtain ⟨_, _, _, _, _, _, rewindWork, _, _, _, rfl⟩ := prepared
  exact ⟨foldl_rewind_tracks tracks _, by simp [newFair]⟩

theorem finishSuffix_tracks {trial : SuffixTrial P} (tracked : trial.trial.Tracked)
    {suffix : List Block} {nowUnix : UInt64} {reorg : SuffixReorg P}
    (finished : finishSuffix trial suffix nowUnix = .ok (some reorg)) :
    reorg.ledger.utxos.Tracks := by
  unfold finishSuffix at finished
  split at finished
  · simp at finished
  split at finished
  · simp at finished
  · simp only [Guard.bind_eq_ok, Except.ok.injEq] at finished
    obtain ⟨last, reached, chosen⟩ := finished
    split at chosen
    · contradiction
    · obtain rfl := Option.some.inj chosen
      refine (applyAll_induction ?_ tracked reached).ledger
      intro current block next holds accepted
      have after := holds.applyBlockInner block nowUnix true
      rw [Chain.applyBlock] at accepted
      rwa [accepted] at after

theorem Reachable.tracked {chain : Chain P} (reachable : chain.Reachable) : chain.Tracked := by
  induction reachable with
  | newFair network => exact tracked_newFair network
  | applyBlock block nowUnix _ ih => exact ih.applyBlockInner block nowUnix true
  | applyBlockLocallyTrusted block nowUnix _ ih => exact ih.applyBlockInner block nowUnix false
  | applyBlockFromOwnDisk block _ ih => exact ih.applyBlockFromOwnDisk block
  | tryIngestBlocks blocks nowUnix _ ih =>
      have kept (current : Chain P) (block : Block) (holds : current.Tracked) :
          (current.applyBlock block nowUnix).2.Tracked := holds.applyBlockInner block nowUnix true
      exact ingestFrom_induction kept ih 0 blocks
  | pruneKeep keep _ ih => exact ih.pruneKeep keep
  | rebuilt ok => exact (tracked_newFair _).replayFrom (replayFrom_of_rebuild ok)
  | evaluated _ won ih => exact ih.evaluated won
  | adoptReorg _ _ ihChain ihCandidate =>
      simp only [Chain.adoptReorg]
      split
      · exact ihCandidate
      · exact ihChain
  | maybeReorgTo blocks nowUnix _ ih => exact ih.maybeReorgTo blocks nowUnix
  | spliceSuffix _ _ prepared finished ihChain ihOrigin =>
      simp only [Chain.spliceSuffix]
      split
      · exact ihChain
      split
      · exact ihChain
      · exact ⟨finishSuffix_tracks (prepareSuffixTrial_tracks ihOrigin.ledger prepared) finished,
          ihChain.horizon⟩

/-- On every reachable chain a failed `applyBlock` or `applyBlockFromOwnDisk` leaves the
whole chain as it was. -/
theorem Reachable.apply_atomic {chain : Chain P} (reachable : chain.Reachable)
    (block : Block) (nowUnix : UInt64) :
    Guard.Atomic (fun current => current.applyBlock block nowUnix) chain ∧
      Guard.Atomic (fun current => current.applyBlockFromOwnDisk block) chain := by
  constructor
  · intro error rejected
    simp only [applyBlock_eq reachable.tracked.ledger] at rejected ⊢
    exact settle_atomic rejected
  · intro error rejected
    simp only [applyBlockFromOwnDisk_eq] at rejected ⊢
    exact settle_atomic rejected

open Sample in
/-- A chain with one block. -/
theorem apply_atomic_block0 :
    let chain := ((newFair primitives .devnet).applyBlock block0 now).2
    Guard.Atomic (fun current => current.applyBlock altered1 now) chain ∧
      Guard.Atomic (fun current => current.applyBlockFromOwnDisk altered1) chain :=
  Reachable.apply_atomic (.applyBlock block0 now (.newFair .devnet)) altered1 now

end Chain

end Nightfall
