import Nightfall.Storage.Base

/-!
# Tips

Every operation that validates what it appends leaves a chain whose last header commits to
its ledger and whose supply adds up.  Such a chain can be restored from its own bodies.
-/

namespace Nightfall

variable {P : Primitives}

/-- The last header of the blocks has the roots of the ledger, and the supply adds up. -/
structure CommitsTo (ledger : LedgerState P) (blocks : List Block) : Prop where
  roots : ∀ tip, blocks.getLast? = some tip →
    ledger.utxoRoot = tip.header.utxoRoot ∧ ledger.kernelSum = tip.header.kernelSum
  supply : ledger.verifySupply = .ok ()

namespace Chain

variable {chain last : Chain P} {blocks : List Block} {nowUnix : UInt64}

theorem commitsTo_iff : CommitsTo chain.ledger chain.blocks ↔
    chain.checkTipRoots = .ok () ∧ chain.verifySupply = .ok () := by
  rw [checkTipRoots_eq_ok, verifySupply, Guard.mapError_eq_ok]
  constructor
  · rintro ⟨roots, supply⟩
    exact ⟨roots, supply⟩
  · rintro ⟨roots, supply⟩
    exact ⟨roots, supply⟩

theorem commitsTo_of_accepted {block : Block} {verifyPow : Bool} (tracked : chain.Tracked)
    (accepted : chain.applyBlockInner block nowUnix verifyPow = (.ok (), last)) :
    CommitsTo last.ledger last.blocks :=
  commitsTo_iff.mpr (tip_of_accepted tracked.ledger accepted)

theorem commitsTo_applyBlockInner (commits : CommitsTo chain.ledger chain.blocks)
    (tracked : chain.Tracked) (block : Block) (verifyPow : Bool) :
    CommitsTo (chain.applyBlockInner block nowUnix verifyPow).2.ledger
      (chain.applyBlockInner block nowUnix verifyPow).2.blocks := by
  cases outcome : chain.applyBlockInner block nowUnix verifyPow with
  | mk verdict next =>
      cases verdict with
      | ok done => exact commitsTo_of_accepted tracked outcome
      | error error =>
          rw [applyBlockInner_eq tracked.ledger] at outcome
          have same := settle_atomic (congrArg Prod.fst outcome)
          rw [outcome] at same
          rw [show next = chain from same]
          exact commits

theorem commitsTo_ingestFrom (commits : CommitsTo chain.ledger chain.blocks)
    (tracked : chain.Tracked) (count : Nat) :
    CommitsTo (ingestFrom nowUnix count chain blocks).2.ledger
      (ingestFrom nowUnix count chain blocks).2.blocks := by
  let holds (current : Chain P) : Prop :=
    current.Tracked ∧ CommitsTo current.ledger current.blocks
  have kept (current : Chain P) (block : Block) (before : holds current) :
      holds (current.applyBlock block nowUnix).2 :=
    ⟨before.1.applyBlockInner block nowUnix true,
      commitsTo_applyBlockInner before.2 before.1 block true⟩
  exact (ingestFrom_induction kept (show holds chain from ⟨tracked, commits⟩) count blocks).2

/-- Blocks that were applied in full leave the roots of the last one. -/
theorem commitsTo_applyAll (tracked : chain.Tracked) (nonempty : blocks ≠ [])
    (reached : applyAll nowUnix chain blocks = .ok last) :
    CommitsTo last.ledger last.blocks := by
  induction blocks generalizing chain with
  | nil => exact absurd rfl nonempty
  | cons block rest ih =>
      simp only [applyAll, Guard.bind_eq_ok, Guard.toExcept_eq_ok] at reached
      obtain ⟨next, accepted, later⟩ := reached
      have nextTracked := tracked.applyBlockInner block nowUnix true
      rw [← Chain.applyBlock, accepted] at nextTracked
      cases rest with
      | nil =>
          obtain rfl := Except.ok.inj later
          exact commitsTo_of_accepted tracked accepted
      | cons other others => exact ih nextTracked (by simp) later

/-- A replay past its trusted part ends with a validated block. -/
theorem commitsTo_replayFrom {trustedPrefix index : Nat} (tracked : chain.Tracked)
    (rebuilt : replayFrom trustedPrefix nowUnix index chain blocks = .ok last)
    (beyond : trustedPrefix < index + blocks.length) (nonempty : blocks ≠ []) :
    CommitsTo last.ledger last.blocks := by
  induction blocks generalizing chain index with
  | nil => exact absurd rfl nonempty
  | cons block rest ih =>
      rw [List.length_cons] at beyond
      simp only [replayFrom] at rebuilt
      split at rebuilt
      next trusted =>
          simp only [Guard.bind_eq_ok, Guard.toExcept_eq_ok] at rebuilt
          obtain ⟨next, accepted, later⟩ := rebuilt
          have nextTracked := tracked.applyBlockFromOwnDisk block
          rw [accepted] at nextTracked
          refine ih nextTracked later (by omega) ?_
          rintro rfl
          rw [List.length_nil] at beyond
          omega
      next untrusted =>
          simp only [Guard.bind_eq_ok, Guard.toExcept_eq_ok] at rebuilt
          obtain ⟨_, _, next, accepted, later⟩ := rebuilt
          have nextTracked := tracked.applyBlockInner block nowUnix true
          rw [← Chain.applyBlock, accepted] at nextTracked
          cases rest with
          | nil =>
              obtain rfl := Except.ok.inj later
              exact commitsTo_of_accepted tracked accepted
          | cons other others =>
              rw [List.length_cons] at beyond
              exact ih nextTracked later (by rw [List.length_cons]; omega) (by simp)

/-- The roots of a rebuilt candidate have been checked. -/
theorem checkTipRoots_evaluated {candidate : Chain P} (tracked : chain.Tracked)
    (won : evaluateReorgAt chain.network chain.totalWork chain.hashChain chain.prunedBase
      blocks nowUnix = .ok (some candidate)) :
    candidate.checkTipRoots = .ok () := by
  obtain ⟨⟨first, rest, shape, _⟩, _, _, _, built, _, _⟩ := evaluateReorgAt_eq_some.mp won
  have nonempty : blocks ≠ [] := by simp [shape]
  have replayed := replayFrom_of_evaluated won
  have held := (blocks_of_replayFrom tracked.replayStart replayed).1
  rw [replayStart_blocks, List.nil_append] at held
  by_cases beyond : chain.trustedPrefix blocks < 0 + blocks.length
  · exact (commitsTo_iff.mp (commitsTo_replayFrom tracked.replayStart replayed beyond nonempty)).1
  · have positive := List.length_pos_iff.mpr nonempty
    have all : blocks.length ≤ chain.trustedPrefix blocks := by omega
    have count := length_of_replayFrom tracked.replayStart replayed
    cases found : chain.prunedBase with
    | none =>
        simp only [trustedPrefix, replayStart, found] at all count
        simp only [found, rebuildCandidate, rebuildFromBlocksTrustedPrefix, Guard.bind_eq_ok,
          Guard.onlyIf_eq_ok, Except.ok.injEq] at built
        obtain ⟨rebuilt, _, _, checked, rfl⟩ := built
        have total : rebuilt.blockCount = blocks.length := by
          have some' : rebuilt.headers ≠ [] := by
            apply List.ne_nil_of_length_pos
            omega
          rw [blockCount, if_pos some', count]
          exact Nat.zero_add _
        apply checked
        simp only [total, Bool.and_eq_true, decide_eq_true_eq]
        simp only [Option.map_none, Option.getD_none, List.drop_zero, Nat.zero_add]
        omega
    | some base =>
        simp only [trustedPrefix, found] at all
        simp only [found, rebuildCandidate, rebuildFromPrunedBase, Guard.bind_eq_ok,
          Guard.onlyIf_eq_ok, Except.ok.injEq] at built
        obtain ⟨rebuilt, _, _, checked, rfl⟩ := built
        apply checked
        simp only [held, List.length_map, Bool.and_eq_true, decide_eq_true_eq]
        simp only [Option.map_some, Option.getD_some]
        omega

theorem commitsTo_maybeReorgTo (commits : CommitsTo chain.ledger chain.blocks)
    (tracked : chain.Tracked) :
    CommitsTo (chain.maybeReorgTo blocks nowUnix).2.ledger
      (chain.maybeReorgTo blocks nowUnix).2.blocks := by
  rw [maybeReorgTo_eq]
  split
  · exact commits
  · exact commits
  next candidate won =>
      exact commitsTo_iff.mpr ⟨checkTipRoots_evaluated tracked won,
        (evaluateReorgAt_eq_some.mp won).2.2.2.2.2.1⟩

theorem commitsTo_pruneKeep (commits : CommitsTo chain.ledger chain.blocks) (keep : Nat) :
    CommitsTo (chain.pruneKeep keep).2.ledger (chain.pruneKeep keep).2.blocks := by
  obtain ⟨ledger, last⟩ := pruneKeep_tip chain keep
  exact ⟨fun tip found => by rw [ledger]; exact commits.roots tip (last ▸ found),
    ledger.symm ▸ commits.supply⟩

theorem commitsTo_spliceSuffix {reorg : SuffixReorg P}
    (commits : CommitsTo chain.ledger chain.blocks)
    (suffix : CommitsTo reorg.ledger reorg.suffix) (nonempty : reorg.suffix ≠ []) :
    CommitsTo (chain.spliceSuffix reorg).2.ledger (chain.spliceSuffix reorg).2.blocks := by
  unfold Chain.spliceSuffix
  split
  · exact commits
  · split
    · exact commits
    · refine ⟨fun tip found => suffix.roots tip ?_, suffix.supply⟩
      rwa [List.getLast?_append_of_ne_nil _ nonempty] at found

end Chain

/-! ## Runs of a node -/

/-- The operation validates the last block that it appends. -/
def Op.Validates : Op → Bool
  | applyBlockFromOwnDisk _ => false
  | _ => true

namespace Node

/-- What a node's operations keep of its tips. -/
structure KeepsTip (node : Node P) : Prop where
  chain : CommitsTo node.chain.ledger node.chain.blocks
  reorgs : ∀ reorg ∈ node.reorgs, CommitsTo reorg.ledger reorg.suffix

theorem keepsTip_start (network : NetworkId) : (Node.start P network).KeepsTip where
  chain := Chain.commitsTo_iff.mpr ⟨rfl, Chain.verifySupply_newFair network⟩
  reorgs := by simp [Node.start]

variable {R : LiveRelation P} {known : Set BlockHeader} {network : NetworkId} {node : Node P}
  {full : List Block}

theorem KeepsTip.step (keeps : node.KeepsTip) (base : node.KeepsBase)
    (holds : node.Holds R known network full) {op : Op} (validates : op.Validates = true) :
    (node.step op).KeepsTip := by
  obtain ⟨chain, reorgs⟩ := keeps
  cases op with
  | applyBlock block nowUnix =>
      exact ⟨Chain.commitsTo_applyBlockInner chain holds.tracked block true, reorgs⟩
  | applyBlockLocallyTrusted block nowUnix =>
      exact ⟨Chain.commitsTo_applyBlockInner chain holds.tracked block false, reorgs⟩
  | applyBlockFromOwnDisk block => cases validates
  | tryIngestBlocks blocks nowUnix =>
      exact ⟨Chain.commitsTo_ingestFrom chain holds.tracked 0, reorgs⟩
  | maybeReorgTo blocks nowUnix =>
      exact ⟨Chain.commitsTo_maybeReorgTo chain holds.tracked, reorgs⟩
  | pruneKeep keep => exact ⟨Chain.commitsTo_pruneKeep chain keep, reorgs⟩
  | prepareSuffixTrial ancestorHeight =>
      simp only [Node.step]
      split
      · exact ⟨chain, reorgs⟩
      · exact ⟨chain, reorgs⟩
  | finishSuffix position suffix nowUnix =>
      simp only [Node.step]
      cases found : node.trials[position]? with
      | none => exact ⟨chain, reorgs⟩
      | some trial =>
          simp only
          split
          next reorg finished =>
              refine ⟨chain, ?_⟩
              intro other member
              rcases List.mem_append.mp member with old | new
              · exact reorgs other old
              · obtain rfl := List.mem_singleton.mp new
                obtain ⟨nonempty, _, last, reached, _, rfl⟩ :=
                  Chain.finishSuffix_eq_some.mp finished
                obtain ⟨_, _, follows, _⟩ := holds.trials trial (List.mem_of_getElem? found)
                exact Chain.commitsTo_applyAll follows.tracked nonempty reached
          next => exact ⟨chain, reorgs⟩
  | spliceSuffix position =>
      simp only [Node.step]
      cases found : node.reorgs[position]? with
      | none => exact ⟨chain, reorgs⟩
      | some reorg =>
          have member := List.mem_of_getElem? found
          exact ⟨Chain.commitsTo_spliceSuffix chain (reorgs reorg member)
            (base.suffixes reorg member), fun other inside =>
              reorgs other (List.mem_of_mem_eraseIdx inside)⟩

/-- The chain of a node that keeps its tip and its base can be restored. -/
theorem Holds.restorable (holds : node.Holds (exactRelation P) known network full)
    (base : node.KeepsBase) (tip : node.KeepsTip) : node.chain.Restorable full where
  holds := holds.chain
  base := base.recorded
  roots := (Chain.commitsTo_iff.mp tip.chain).1
  supply := (Chain.commitsTo_iff.mp tip.chain).2

end Node

end Nightfall
