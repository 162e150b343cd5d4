import Nightfall.Consensus.Bodies
import Nightfall.Consensus.Records
import Nightfall.Storage.Restore

/-!
# The base of a chain

The horizon of a pruned chain moves up when bodies are dropped and stays otherwise, and a
chain never drops its last body.
-/

namespace Nightfall

variable {P : Primitives}

namespace Chain

/-- The base is the same, or more bodies were dropped. -/
def BaseAdvances (before after : Chain P) : Prop :=
  SameBase before after ∨
    after.network = before.network ∧ before.firstHeight < after.firstHeight

theorem BaseAdvances.refl (chain : Chain P) : BaseAdvances chain chain :=
  .inl (.refl chain)

theorem BaseAdvances.network {before after : Chain P} (advances : BaseAdvances before after) :
    after.network = before.network := by
  rcases advances with same | ⟨same, _⟩
  · exact same.network
  · exact same

theorem BaseAdvances.trans {first second third : Chain P} (front : BaseAdvances first second)
    (back : BaseAdvances second third) : BaseAdvances first third := by
  have network := back.network.trans front.network
  rcases front with same | ⟨_, higher⟩
  · rcases back with again | ⟨_, higher⟩
    · exact .inl (same.trans again)
    · exact .inr ⟨network, same.firstHeight ▸ higher⟩
  · rcases back with again | ⟨_, later⟩
    · exact .inr ⟨network, again.firstHeight ▸ higher⟩
    · exact .inr ⟨network, higher.trans later⟩

/-- At the same height the base is the same one. -/
theorem BaseAdvances.sameBase {before after : Chain P} (advances : BaseAdvances before after)
    (first : after.firstHeight = before.firstHeight) : SameBase before after := by
  rcases advances with same | ⟨_, higher⟩
  · exact same
  · omega

/-- A pruned chain has a body. -/
def KeepsBody (chain : Chain P) : Prop :=
  0 < chain.firstHeight → chain.blocks ≠ []

/-! ## One operation -/

section Operations

variable {chain : Chain P}

theorem settle_sameBase (chain : Chain P) (block : Block)
    (result : Except ConsensusError (LedgerState P × StateUndo)) :
    SameBase chain (chain.settle block result).2 := by
  cases result with
  | error error => exact .refl chain
  | ok accepted => exact ⟨rfl, rfl, rfl, rfl⟩

theorem KeepsBody.settle (keeps : chain.KeepsBody) (block : Block)
    (result : Except ConsensusError (LedgerState P × StateUndo)) :
    (chain.settle block result).2.KeepsBody := by
  cases result with
  | error error => exact keeps
  | ok accepted =>
      intro _
      simp [Chain.settle]

theorem ingestFrom_base {nowUnix : UInt64} (tracked : chain.Tracked) (keeps : chain.KeepsBody)
    (count : Nat) (blocks : List Block) :
    SameBase chain (ingestFrom nowUnix count chain blocks).2 ∧
      (ingestFrom nowUnix count chain blocks).2.KeepsBody := by
  let holds (current : Chain P) : Prop :=
    current.Tracked ∧ SameBase chain current ∧ current.KeepsBody
  have start : holds chain := ⟨tracked, .refl chain, keeps⟩
  have kept (current : Chain P) (block : Block) (before : holds current) :
      holds (current.applyBlock block nowUnix).2 := by
    obtain ⟨currentTracked, same, body⟩ := before
    refine ⟨currentTracked.applyBlockInner block nowUnix true, ?_, ?_⟩
    · rw [applyBlock_eq currentTracked.ledger]
      exact same.trans (settle_sameBase _ _ _)
    · rw [applyBlock_eq currentTracked.ledger]
      exact body.settle _ _
  exact (ingestFrom_induction kept start count blocks).2

theorem pruneKeep_base (chain : Chain P) (keep : Nat) :
    (BaseAdvances chain (chain.pruneKeep keep).2 ∨
      ∃ error, (chain.pruneKeep keep).1 = .error error) ∧
      (chain.KeepsBody → (chain.pruneKeep keep).2.KeepsBody) := by
  simp only [pruneKeep]
  by_cases short : chain.blocks.length ≤ max keep 1
  · rw [if_pos short]
    exact ⟨.inl (.refl chain), id⟩
  · rw [if_neg short]
    cases advanced : advanceHorizon chain.horizonStart
        (chain.blocks.take (chain.blocks.length - max keep 1)) with
    | mk verdict reached =>
        cases verdict with
        | error error => exact ⟨.inr ⟨error, rfl⟩, id⟩
        | ok done =>
            constructor
            · left
              right
              refine ⟨rfl, ?_⟩
              change chain.firstHeight < chain.firstHeight + _
              omega
            · intro _ _
              apply List.ne_nil_of_length_pos
              rw [List.length_drop]
              omega

theorem spliceSuffix_base {reorg : SuffixReorg P} (keeps : chain.KeepsBody)
    (suffix : reorg.suffix ≠ []) :
    SameBase chain (chain.spliceSuffix reorg).2 ∧ (chain.spliceSuffix reorg).2.KeepsBody := by
  unfold spliceSuffix
  split
  · exact ⟨.refl chain, keeps⟩
  · split
    · exact ⟨.refl chain, keeps⟩
    · exact ⟨⟨rfl, rfl, rfl, rfl⟩, fun _ => List.append_ne_nil_of_right_ne_nil _ suffix⟩

/-- The chain on which a candidate is replayed has the base of this one. -/
theorem Holds.replayStart_sameBase {R : LiveRelation P} {full : List Block}
    (holds : chain.Holds R full) (base : chain.BaseRecorded) :
    SameBase chain chain.replayStart := by
  rw [Chain.replayStart]
  cases found : chain.prunedBase with
  | none =>
      have archive : chain.firstHeight = 0 := by
        unfold prunedBase at found
        split at found
        next zero => exact zero
        next => exact holds.archive (Option.map_eq_none_iff.mp found)
      obtain ⟨horizon, work⟩ := base.archive archive
      exact ⟨rfl, archive.symm, horizon.symm, work.symm⟩
  | some pruned =>
      unfold prunedBase at found
      split at found
      · contradiction
      obtain ⟨horizon, present, rfl⟩ := Option.map_eq_some_iff.mp found
      obtain ⟨rfl, work⟩ := holds.horizon horizon present
      have sameHorizon : (replay P chain.network (full.take chain.firstHeight)).withBindingHeight
          chain.network.bindingForkHeight =
            replay P chain.network (full.take chain.firstHeight) := by
        rw [LedgerState.withBindingHeight,
          ← replay_bindingHeight chain.network (full.take chain.firstHeight)]
      exact ⟨rfl, rfl, (congrArg some sameHorizon).trans present.symm, rfl⟩

/-- A reorg keeps the base. -/
theorem Holds.maybeReorgTo_base {R : LiveRelation P} {full : List Block} {blocks : List Block}
    {nowUnix : UInt64} (holds : chain.Holds R full) (tracked : chain.Tracked)
    (base : chain.BaseRecorded) (keeps : chain.KeepsBody) :
    SameBase chain (chain.maybeReorgTo blocks nowUnix).2 ∧
      (chain.maybeReorgTo blocks nowUnix).2.KeepsBody := by
  unfold Chain.maybeReorgTo
  split
  next error failed => exact ⟨.refl chain, keeps⟩
  next lost => exact ⟨.refl chain, keeps⟩
  next candidate won =>
      have nonempty : blocks ≠ [] := by
        rintro rfl
        simp [evaluateReorgAt] at won
      have replayed := replayFrom_of_evaluated won
      have start := holds.replayStart_sameBase base
      have same := (sameBase_replayFrom tracked.replayStart replayed).2
      have bodies := (blocks_of_replayFrom tracked.replayStart replayed).1
      by_cases wins : candidate.totalWork > chain.totalWork
      · have adopted : chain.adoptReorg candidate = (true, candidate) := if_pos wins
        rw [adopted]
        exact ⟨start.trans same, fun _ => by simp [bodies, nonempty]⟩
      · have kept : chain.adoptReorg candidate = (false, chain) := if_neg wins
        rw [kept]
        exact ⟨.refl chain, keeps⟩

/-- Blocks that were applied are kept. -/
theorem blocks_ne_nil_of_applyAll {nowUnix : UInt64} {last : Chain P} {blocks : List Block}
    (tracked : chain.Tracked) (reached : applyAll nowUnix chain blocks = .ok last)
    (some : chain.blocks ≠ [] ∨ blocks ≠ []) : last.blocks ≠ [] := by
  induction blocks generalizing chain with
  | nil =>
      obtain rfl := Except.ok.inj reached
      exact some.resolve_right fun absurd => absurd rfl
  | cons block rest ih =>
      simp only [applyAll, Guard.bind_eq_ok, Guard.toExcept_eq_ok] at reached
      obtain ⟨next, accepted, later⟩ := reached
      have nextTracked := tracked.applyBlockInner block nowUnix true
      rw [← Chain.applyBlock, accepted] at nextTracked
      rw [applyBlock_eq tracked.ledger, settle_eq_ok] at accepted
      obtain ⟨ledger, undo, _, rfl⟩ := accepted
      exact ih nextTracked later (.inl (by simp))

end Operations

/-- The base of a chain stays recorded. -/
theorem BaseRecorded.of_sameBase {before after : Chain P} (recorded : before.BaseRecorded)
    (same : SameBase before after) : after.BaseRecorded := by
  constructor
  · intro archive
    rw [same.horizon, same.horizonWork]
    exact recorded.archive (same.firstHeight.symm.trans archive)
  · intro pruned
    rw [same.horizon]
    exact recorded.pruned (same.firstHeight ▸ pruned)

theorem BaseRecorded.pruneKeep {chain : Chain P} (recorded : chain.BaseRecorded) {keep count : Nat}
    (done : (chain.pruneKeep keep).1 = .ok count) : (chain.pruneKeep keep).2.BaseRecorded := by
  simp only [Chain.pruneKeep] at done ⊢
  split
  · exact recorded
  · next long =>
      rw [if_neg long] at done
      cases advanced : advanceHorizon chain.horizonStart
          (chain.blocks.take (chain.blocks.length - max keep 1)) with
      | mk verdict reached =>
          cases verdict with
          | error error => simp [advanced] at done
          | ok finished =>
              constructor
              · intro archive
                simp only at archive
                omega
              · exact fun _ => rfl

/-- Dropping bodies leaves the ledger and the last body alone. -/
theorem pruneKeep_tip (chain : Chain P) (keep : Nat) :
    (chain.pruneKeep keep).2.ledger = chain.ledger ∧
      (chain.pruneKeep keep).2.blocks.getLast? = chain.blocks.getLast? := by
  simp only [Chain.pruneKeep]
  split
  · exact ⟨rfl, rfl⟩
  · next long =>
      split
      · exact ⟨rfl, rfl⟩
      · refine ⟨rfl, ?_⟩
        change (chain.blocks.drop (chain.blocks.length - max keep 1)).getLast? = _
        rw [List.getLast?_drop, if_neg (by omega)]

/-- A chain that dropped bodies can still be restored. -/
theorem Restorable.pruneKeep {chain : Chain P} {full : List Block}
    (restorable : chain.Restorable full) (keep : Nat) :
    (chain.pruneKeep keep).2.Restorable full := by
  obtain ⟨⟨count, done⟩, holds⟩ := restorable.holds.pruneKeep keep
  obtain ⟨ledger, last⟩ := pruneKeep_tip chain keep
  refine ⟨holds, restorable.base.pruneKeep done, ?_, ?_⟩
  · rw [← restorable.roots]
    unfold checkTipRoots
    rw [ledger, last]
  · rw [← restorable.supply]
    unfold verifySupply
    rw [ledger]

end Chain

/-! ## Runs of a node -/

namespace Node

/-- What a node's operations keep of the base of its chain. -/
structure KeepsBase (node : Node P) : Prop where
  recorded : node.chain.BaseRecorded
  body : node.chain.KeepsBody
  suffixes : ∀ reorg ∈ node.reorgs, reorg.suffix ≠ []

theorem keepsBase_start (network : NetworkId) : (Node.start P network).KeepsBase where
  recorded := (Chain.restorable_newFair network).base
  body := fun pruned => absurd pruned (Nat.lt_irrefl 0)
  suffixes := by simp [Node.start]

variable {R : LiveRelation P} {known : Set BlockHeader} {network : NetworkId} {node : Node P}
  {full : List Block}

theorem KeepsBase.step (keeps : node.KeepsBase) (holds : node.Holds R known network full)
    (op : Op) :
    (node.step op).KeepsBase ∧ Chain.BaseAdvances node.chain (node.step op).chain := by
  obtain ⟨recorded, body, suffixes⟩ := keeps
  have stays {next : Chain P} (same : Chain.SameBase node.chain next) (kept : next.KeepsBody) :
      next.BaseRecorded ∧ next.KeepsBody ∧ Chain.BaseAdvances node.chain next :=
    ⟨recorded.of_sameBase same, kept, .inl same⟩
  cases op with
  | applyBlock block nowUnix =>
      have settled := Chain.applyBlockInner_eq holds.tracked.ledger block nowUnix true
      obtain ⟨first, second, third⟩ := stays (Chain.settle_sameBase node.chain _ _)
        (body.settle (node.chain.storedForm block)
          (node.chain.verdict (node.chain.storedForm block) nowUnix true))
      simp only [Node.step, Chain.applyBlock, settled]
      exact ⟨⟨first, second, suffixes⟩, third⟩
  | applyBlockLocallyTrusted block nowUnix =>
      have settled := Chain.applyBlockInner_eq holds.tracked.ledger block nowUnix false
      obtain ⟨first, second, third⟩ := stays (Chain.settle_sameBase node.chain _ _)
        (body.settle (node.chain.storedForm block)
          (node.chain.verdict (node.chain.storedForm block) nowUnix false))
      simp only [Node.step, Chain.applyBlockLocallyTrusted, settled]
      exact ⟨⟨first, second, suffixes⟩, third⟩
  | applyBlockFromOwnDisk block =>
      have settled := Chain.applyBlockFromOwnDisk_eq node.chain block
      obtain ⟨first, second, third⟩ := stays (Chain.settle_sameBase node.chain _ _)
        (body.settle (node.chain.storedForm block)
          (node.chain.ownDiskVerdict (node.chain.storedForm block)))
      simp only [Node.step, settled]
      exact ⟨⟨first, second, suffixes⟩, third⟩
  | tryIngestBlocks blocks nowUnix =>
      obtain ⟨same, kept⟩ :=
        @Chain.ingestFrom_base P node.chain nowUnix holds.tracked body 0 blocks
      obtain ⟨first, second, third⟩ := stays same kept
      exact ⟨⟨first, second, suffixes⟩, third⟩
  | maybeReorgTo blocks nowUnix =>
      obtain ⟨same, kept⟩ := @Chain.Holds.maybeReorgTo_base P node.chain R full blocks nowUnix
        holds.chain holds.tracked recorded body
      obtain ⟨first, second, third⟩ := stays same kept
      exact ⟨⟨first, second, suffixes⟩, third⟩
  | pruneKeep keep =>
      obtain ⟨⟨count, done⟩, _⟩ := holds.chain.pruneKeep keep
      obtain ⟨advances, kept⟩ := Chain.pruneKeep_base node.chain keep
      refine ⟨⟨recorded.pruneKeep done, kept body, suffixes⟩, advances.resolve_right ?_⟩
      rintro ⟨error, failed⟩
      rw [failed] at done
      cases done
  | prepareSuffixTrial ancestorHeight =>
      simp only [Node.step]
      split
      · exact ⟨⟨recorded, body, suffixes⟩, .refl _⟩
      · exact ⟨⟨recorded, body, suffixes⟩, .refl _⟩
  | finishSuffix position suffix nowUnix =>
      simp only [Node.step]
      cases found : node.trials[position]? with
      | none => exact ⟨⟨recorded, body, suffixes⟩, .refl _⟩
      | some trial =>
          simp only
          split
          next reorg finished =>
              refine ⟨⟨recorded, body, ?_⟩, .refl _⟩
              intro other member
              rcases List.mem_append.mp member with old | new
              · exact suffixes other old
              · obtain rfl := List.mem_singleton.mp new
                obtain ⟨nonempty, _, last, reached, _, rfl⟩ :=
                  Chain.finishSuffix_eq_some.mp finished
                obtain ⟨_, _, follows, _⟩ := holds.trials trial (List.mem_of_getElem? found)
                exact Chain.blocks_ne_nil_of_applyAll follows.tracked reached (.inr nonempty)
          next => exact ⟨⟨recorded, body, suffixes⟩, .refl _⟩
  | spliceSuffix position =>
      simp only [Node.step]
      cases found : node.reorgs[position]? with
      | none => exact ⟨⟨recorded, body, suffixes⟩, .refl _⟩
      | some reorg =>
          obtain ⟨same, kept⟩ := Chain.spliceSuffix_base body
            (suffixes reorg (List.mem_of_getElem? found))
          obtain ⟨first, second, third⟩ := stays same kept
          exact ⟨⟨first, second, fun other member =>
            suffixes other (List.mem_of_mem_eraseIdx member)⟩, third⟩

/-- Two states of one run: the later chain has the base of the earlier one, or dropped more
bodies. -/
theorem baseAdvances_run {before more : List Op} (collisionFree : CollisionFree P (before ++ more))
    (fits : FitsAlong (P := P) network (before ++ more)) :
    let known := offeredHeaders (before ++ more)
    let old := (Node.start P network).run before
    let new := (Node.start P network).run (before ++ more)
    (∃ full, old.Holds (belowRelation P) known network full) ∧
      (∃ full, new.Holds (belowRelation P) known network full) ∧
      new.KeepsBase ∧ Chain.BaseAdvances old.chain new.chain := by
  intro known old new
  have injective : Set.InjOn (BlockHeader.hash P) known := collisionFree.hash_injOn
  have admissible := admissible_of_fitsAlong (R := belowRelation P) fits
    (trustedBy_of_forall (fun _ _ => trivial) network (before ++ more))
  obtain ⟨front, back⟩ := admissible.append
  let good (node : Node P) : Prop :=
    (∃ full, node.Holds (belowRelation P) known network full) ∧ node.KeepsBase
  have start : good (Node.start P network) :=
    ⟨⟨[], Node.holds_start _ _ _⟩, keepsBase_start network⟩
  have goodOld : good old := by
    refine front.invariant start ?_
    rintro node op ⟨⟨full, holds⟩, keeps⟩ allowed
    obtain ⟨next, nextHolds, _⟩ := holds.step injective allowed
    exact ⟨⟨next, nextHolds⟩, (keeps.step holds op).1⟩
  have goodNew : good new ∧ Chain.BaseAdvances old.chain new.chain := by
    have run : new = GuardedRun.run Node.step old more := GuardedRun.run_append _ _ _
    rw [run]
    let kept (node : Node P) : Prop := good node ∧ Chain.BaseAdvances old.chain node.chain
    have first : kept old := ⟨goodOld, .refl _⟩
    refine back.invariant first ?_
    rintro node op ⟨⟨⟨full, holds⟩, keeps⟩, advances⟩ allowed
    obtain ⟨next, nextHolds, _⟩ := holds.step injective allowed
    obtain ⟨nextKeeps, further⟩ := keeps.step holds op
    exact ⟨⟨⟨next, nextHolds⟩, nextKeeps⟩, advances.trans further⟩
  exact ⟨goodOld.1, goodNew.1.1, goodNew.1.2, goodNew.2⟩

end Node

end Nightfall
