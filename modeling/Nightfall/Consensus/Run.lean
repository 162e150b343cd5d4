import Nightfall.Library.GuardedRun
import Nightfall.Consensus.Follows

/-!
# Runs of a node

A node owns one chain and the suffix reorgs it is still working on: the lock around
the chain is released between `prepareSuffixTrial`, `finishSuffix` and
`spliceSuffix`, so any other operation may come in between.
-/

namespace Nightfall

variable (P : Primitives)

structure Node where
  chain : Chain P
  /-- Prepared trials whose suffix has not been verified yet. -/
  trials : List (SuffixTrial P)
  /-- Verified suffixes that have not been spliced yet. -/
  reorgs : List (SuffixReorg P)

/-- The operations of a node on its chain. -/
inductive Op where
  | applyBlock (block : Block) (nowUnix : UInt64)
  | applyBlockLocallyTrusted (block : Block) (nowUnix : UInt64)
  | applyBlockFromOwnDisk (block : Block)
  | tryIngestBlocks (blocks : List Block) (nowUnix : UInt64)
  | maybeReorgTo (blocks : List Block) (nowUnix : UInt64)
  | pruneKeep (keep : Nat)
  | prepareSuffixTrial (ancestorHeight : Nat)
  | finishSuffix (position : Nat) (suffix : List Block) (nowUnix : UInt64)
  | spliceSuffix (position : Nat)

/-- The blocks an operation offers to the node. -/
def Op.blocks : Op → List Block
  | applyBlock block _ => [block]
  | applyBlockLocallyTrusted block _ => [block]
  | applyBlockFromOwnDisk block => [block]
  | tryIngestBlocks blocks _ => blocks
  | maybeReorgTo blocks _ => blocks
  | pruneKeep _ => []
  | prepareSuffixTrial _ => []
  | finishSuffix _ suffix _ => suffix
  | spliceSuffix _ => []

namespace Node

def start (network : NetworkId) : Node P := ⟨Chain.newFair P network, [], []⟩

variable {P}

/-- One operation, successful or not. -/
def step (node : Node P) : Op → Node P
  | .applyBlock block nowUnix =>
      { node with chain := (node.chain.applyBlock block nowUnix).2 }
  | .applyBlockLocallyTrusted block nowUnix =>
      { node with chain := (node.chain.applyBlockLocallyTrusted block nowUnix).2 }
  | .applyBlockFromOwnDisk block =>
      { node with chain := (node.chain.applyBlockFromOwnDisk block).2 }
  | .tryIngestBlocks blocks nowUnix =>
      { node with chain := (node.chain.tryIngestBlocks blocks nowUnix).2 }
  | .maybeReorgTo blocks nowUnix =>
      { node with chain := (node.chain.maybeReorgTo blocks nowUnix).2 }
  | .pruneKeep keep =>
      { node with chain := (node.chain.pruneKeep keep).2 }
  | .prepareSuffixTrial ancestorHeight =>
      match node.chain.prepareSuffixTrial ancestorHeight with
      | .ok trial => { node with trials := node.trials ++ [trial] }
      | .error _ => node
  | .finishSuffix position suffix nowUnix =>
      match node.trials[position]? with
      | none => node
      | some trial =>
          let trials := node.trials.eraseIdx position
          match Chain.finishSuffix trial suffix nowUnix with
          | .ok (some reorg) => { node with trials := trials, reorgs := node.reorgs ++ [reorg] }
          | _ => { node with trials := trials }
  | .spliceSuffix position =>
      match node.reorgs[position]? with
      | none => node
      | some reorg =>
          { node with
            chain := (node.chain.spliceSuffix reorg).2
            reorgs := node.reorgs.eraseIdx position }

/-- The state after a list of operations. -/
def run (node : Node P) (ops : List Op) : Node P :=
  GuardedRun.run step node ops

/-- The header lists of a node are in memory, so their lengths are machine words. -/
def Fits (node : Node P) : Prop :=
  node.chain.headers.length < 2 ^ 64 ∧
    ∀ reorg ∈ node.reorgs, reorg.headers.length < 2 ^ 64

instance (node : Node P) : Decidable node.Fits :=
  inferInstanceAs (Decidable (_ ∧ ∀ reorg ∈ node.reorgs, reorg.headers.length < 2 ^ 64))

end Node

variable {P}

/-- The chain on which a candidate is replayed. -/
def Chain.replayStart (chain : Chain P) : Chain P :=
  match chain.prunedBase with
  | none => Chain.newFair P chain.network
  | some base => Chain.fromPrunedBase chain.network base

/-- How many blocks of a candidate a reorg replays as our own: those whose hashes we
share, and without a horizon those that a pinned height vouches for. -/
def Chain.trustedPrefix (chain : Chain P) (blocks : List Block) : Nat :=
  match chain.prunedBase with
  | none =>
      max (Chain.commonPrefix P chain.hashChain blocks)
        (Chain.assumeValidTo P chain.network blocks)
  | some base => Chain.commonPrefix P (chain.hashChain.drop base.firstHeight) blocks

/-- The candidate of a reorg is a replay of the offered blocks. -/
theorem Chain.replayFrom_of_evaluated {chain candidate : Chain P} {blocks : List Block}
    {nowUnix : UInt64}
    (won : Chain.evaluateReorgAt chain.network chain.totalWork chain.hashChain chain.prunedBase
      blocks nowUnix = .ok (some candidate)) :
    Chain.replayFrom (chain.trustedPrefix blocks) nowUnix 0 chain.replayStart blocks =
      .ok candidate := by
  obtain ⟨_, _, _, _, built, _, _⟩ := Chain.evaluateReorgAt_eq_some.mp won
  unfold Chain.trustedPrefix Chain.replayStart
  cases found : chain.prunedBase with
  | none =>
      simp only [found, Chain.rebuildCandidate] at built
      simpa using Chain.replayFrom_of_rebuild built
  | some base =>
      simp only [found, Chain.rebuildCandidate] at built
      simpa using Chain.replayFrom_of_rebuildPruned built

@[simp] theorem Chain.replayStart_network (chain : Chain P) :
    chain.replayStart.network = chain.network := by
  unfold Chain.replayStart
  split <;> rfl

@[simp] theorem Chain.replayStart_blocks (chain : Chain P) : chain.replayStart.blocks = [] := by
  unfold Chain.replayStart
  split <;> rfl

theorem Chain.Tracked.replayStart {chain : Chain P} (tracked : chain.Tracked) :
    chain.replayStart.Tracked := by
  unfold Chain.replayStart
  cases found : chain.prunedBase with
  | none => exact Chain.tracked_newFair chain.network
  | some base => exact tracked.fromPrunedBase chain.network found

/-- The condition holds of every block that the operation replays as our own. -/
def Op.TrustedBy (condition : Chain P → Block → Prop) (chain : Chain P) : Op → Prop
  | applyBlockFromOwnDisk block => condition chain block
  | maybeReorgTo blocks _ =>
      Chain.AlongTrusted condition (chain.trustedPrefix blocks) 0 chain.replayStart blocks
  | _ => True

instance Op.decidableTrustedBy (condition : Chain P → Block → Prop)
    [∀ chain block, Decidable (condition chain block)] (chain : Chain P) :
    (op : Op) → Decidable (op.TrustedBy condition chain)
  | applyBlock _ _ => isTrue trivial
  | applyBlockLocallyTrusted _ _ => isTrue trivial
  | applyBlockFromOwnDisk block => inferInstanceAs (Decidable (condition chain block))
  | tryIngestBlocks _ _ => isTrue trivial
  | maybeReorgTo blocks _ =>
      inferInstanceAs (Decidable (Chain.AlongTrusted condition (chain.trustedPrefix blocks) 0
        chain.replayStart blocks))
  | pruneKeep _ => isTrue trivial
  | prepareSuffixTrial _ => isTrue trivial
  | finishSuffix _ _ _ => isTrue trivial
  | spliceSuffix _ => isTrue trivial

/-! ## Progress -/

/-- The block list was extended, or replaced by one with more work. -/
def Progress (full next : List Block) : Prop :=
  full <+: next ∨ totalBlockWork full < totalBlockWork next

theorem Progress.refl (full : List Block) : Progress full full := Or.inl (List.prefix_refl full)

theorem totalBlockWork_le_of_prefix {full next : List Block} (extended : full <+: next) :
    totalBlockWork full ≤ totalBlockWork next := by
  obtain ⟨rest, rfl⟩ := extended
  rw [totalBlockWork_append]
  omega

/-- A longer list has more work. -/
theorem eq_of_prefix_of_totalBlockWork_eq {full next : List Block} (extended : full <+: next)
    (same : totalBlockWork full = totalBlockWork next) : full = next := by
  obtain ⟨rest, rfl⟩ := extended
  rw [totalBlockWork_append] at same
  cases rest with
  | nil => simp
  | cons head tail =>
      have := totalBlockWork_pos (List.cons_ne_nil head tail)
      omega

/-- The block list a reorg was prepared on is still current unless work was gained. -/
def NotStale (origin full : List Block) : Prop :=
  totalBlockWork origin ≤ totalBlockWork full ∧
    (totalBlockWork origin = totalBlockWork full → origin = full)

theorem NotStale.refl (full : List Block) : NotStale full full := ⟨le_rfl, fun _ => rfl⟩

theorem NotStale.progress {origin full next : List Block} (notStale : NotStale origin full)
    (progress : Progress full next) : NotStale origin next := by
  rcases progress with extended | heavier
  · have grown := totalBlockWork_le_of_prefix extended
    refine ⟨notStale.1.trans grown, fun same => ?_⟩
    have sameNow : totalBlockWork origin = totalBlockWork full :=
      le_antisymm notStale.1 (same ▸ grown)
    rw [notStale.2 sameNow] at same ⊢
    exact eq_of_prefix_of_totalBlockWork_eq extended same
  · have notAbove := notStale.1
    exact ⟨by omega, fun same => by omega⟩

/-! ## The invariant of a node -/

/-- A chain with everything that is recorded about the blocks `full`. -/
structure Chain.Holds (R : LiveRelation P) (chain : Chain P) (full : List Block) : Prop where
  follows : Follows R chain chain.firstHeight full
  archive : chain.horizon = none → chain.firstHeight = 0
  horizon : ∀ horizon, chain.horizon = some horizon →
    horizon = replay P chain.network (full.take chain.firstHeight) ∧
      chain.horizonWork = totalBlockWork (full.take chain.firstHeight)

/-- A trial continues from a prefix of the list it was prepared on. -/
structure TrialFollows (R : LiveRelation P) (known : Set BlockHeader) (network : NetworkId)
    (trial : SuffixTrial P) (origin : List Block) (keep : Nat) : Prop where
  linked : Linked P network origin
  headersKnown : ∀ block ∈ origin, block.header ∈ known
  basedOn : trial.basedOn = tipHashOf P network origin
  ourWork : trial.ourWork = totalBlockWork origin
  length : origin.length = keep + trial.rewind
  keep_pos : 0 < keep
  follows : Follows R trial.trial keep (origin.take keep)
  sameNetwork : trial.trial.network = network
  tracked : trial.trial.Tracked
  undos : trial.trial.undos = []

/-- A verified suffix continues from a prefix of the list it was prepared on. -/
structure ReorgFollows (R : LiveRelation P) (known : Set BlockHeader) (network : NetworkId)
    (reorg : SuffixReorg P) (origin : List Block) (keep : Nat) (tail : List Block)
    (last : Chain P) : Prop where
  linked : Linked P network origin
  headersKnown : ∀ block ∈ origin ++ tail, block.header ∈ known
  basedOn : reorg.basedOn = tipHashOf P network origin
  length : origin.length = keep + reorg.rewind
  keep_pos : 0 < keep
  follows : Follows R last keep (origin.take keep ++ tail)
  sameNetwork : last.network = network
  undos_length : last.undos.length = min maxReorgDepth tail.length
  heavier : totalBlockWork origin < reorg.totalWork
  fields : reorg = {
    ledger := last.ledger
    headers := last.headers
    suffix := last.blocks
    undos := last.undos
    totalWork := last.totalWork
    rewind := reorg.rewind
    basedOn := reorg.basedOn }

/-- The invariant of a node whose chain describes `full`. -/
structure Node.Holds (R : LiveRelation P) (known : Set BlockHeader) (network : NetworkId)
    (node : Node P) (full : List Block) : Prop where
  chain : node.chain.Holds R full
  sameNetwork : node.chain.network = network
  tracked : node.chain.Tracked
  headersKnown : ∀ block ∈ full, block.header ∈ known
  trials : ∀ trial ∈ node.trials, ∃ origin keep,
    TrialFollows R known network trial origin keep ∧ NotStale origin full
  reorgs : ∀ reorg ∈ node.reorgs, ∃ origin keep tail last,
    ReorgFollows R known network reorg origin keep tail last ∧ NotStale origin full

/-- A step that the invariant survives: the headers it offers are known, the result is in
memory and the relation admits what it replays. -/
structure Admissible (R : LiveRelation P) (known : Set BlockHeader) (node : Node P) (op : Op) :
    Prop where
  headersKnown : ∀ block ∈ op.blocks, block.header ∈ known
  fits : (node.step op).Fits
  admits : op.TrustedBy (fun chain block => R.admits chain.ledger (chain.storedForm block).body)
    node.chain

/-! ## Starting points -/

theorem follows_newFair (R : LiveRelation P) (network : NetworkId) :
    Follows R (Chain.newFair P network) 0 [] where
  describes := {
    headers := rfl
    blocks := rfl
    skip_le := le_rfl
    first_le := le_rfl
    linked := Chained.nil _
    work := rfl
    fits := by simp
    undos_le := by simp [Chain.newFair]
    undoWorks := by simp [Chain.newFair] }
  replays := Chained.nil _
  live := R.refl _
  tracks := UtxoSet.tracks_empty
  covers := UndoLog.covers_nil _ _

theorem Chain.holds_newFair (R : LiveRelation P) (network : NetworkId) :
    (Chain.newFair P network).Holds R [] :=
  ⟨follows_newFair R network, fun _ => rfl, by simp [Chain.newFair]⟩

theorem Node.holds_start (R : LiveRelation P) (known : Set BlockHeader) (network : NetworkId) :
    (Node.start P network).Holds R known network [] where
  chain := Chain.holds_newFair R network
  sameNetwork := rfl
  tracked := Chain.tracked_newFair network
  headersKnown := by simp
  trials := by simp [Node.start]
  reorgs := by simp [Node.start]

section Chains

variable {R : LiveRelation P} {chain : Chain P} {full : List Block}

/-- The horizon of a pruned chain is a starting point for the blocks below it. -/
theorem Chain.Holds.fromPrunedBase (holds : chain.Holds R full) {base : PrunedBase P}
    (found : chain.prunedBase = some base) :
    base.firstHeight = chain.firstHeight ∧
      (Chain.fromPrunedBase chain.network base).Holds R (full.take chain.firstHeight) := by
  unfold Chain.prunedBase at found
  split at found
  · contradiction
  obtain ⟨horizon, present, rfl⟩ := Option.map_eq_some_iff.mp found
  obtain ⟨rfl, work⟩ := holds.horizon horizon present
  have describes := holds.follows.describes
  have bound := describes.skip_le
  have fits := describes.fits
  have sameHorizon : (replay P chain.network (full.take chain.firstHeight)).withBindingHeight
      chain.network.bindingForkHeight =
        replay P chain.network (full.take chain.firstHeight) := by
    unfold LedgerState.withBindingHeight
    rw [← replay_bindingHeight chain.network (full.take chain.firstHeight)]
  refine ⟨rfl, ?_⟩
  exact {
    follows := {
      describes := {
        headers := by simp [Chain.fromPrunedBase, describes.headers, List.map_take]
        blocks := by simp [Chain.fromPrunedBase, Chain.newFair]
        skip_le := by simp [Chain.fromPrunedBase, bound]
        first_le := le_rfl
        linked := describes.linked.take _
        work := work
        fits := by simp; omega
        undos_le := by simp [Chain.fromPrunedBase, Chain.newFair]
        undoWorks := by simp [Chain.fromPrunedBase, Chain.newFair] }
      replays := holds.follows.replays.take _
      live := by
        simp only [Chain.fromPrunedBase, Chain.newFair, sameHorizon]
        exact R.refl _
      tracks := by
        simp only [Chain.fromPrunedBase, Chain.newFair, sameHorizon]
        exact replay_tracks _ _
      covers := UndoLog.covers_nil _ _ }
    archive := by simp [Chain.fromPrunedBase]
    horizon := by
      rintro _ ⟨⟩
      simp only [Chain.fromPrunedBase, Chain.newFair, sameHorizon, List.take_take, min_self]
      exact ⟨trivial, work⟩ }

/-- A candidate is replayed on a chain that describes the blocks below the first body. -/
theorem Chain.Holds.replayStart (holds : chain.Holds R full) :
    chain.replayStart.firstHeight = chain.firstHeight ∧
      chain.replayStart.Holds R (full.take chain.firstHeight) := by
  unfold Chain.replayStart
  cases found : chain.prunedBase with
  | none =>
      have archive : chain.firstHeight = 0 := by
        unfold Chain.prunedBase at found
        split at found
        next zero => exact zero
        next => exact holds.archive (Option.map_eq_none_iff.mp found)
      rw [archive]
      exact ⟨rfl, Chain.holds_newFair R chain.network⟩
  | some base => exact holds.fromPrunedBase found

/-! ## Single operations on a chain -/

/-- Accepted or not, one block keeps the invariant. -/
theorem Chain.Holds.applyBlockInner (holds : chain.Holds R full) (offered : Block)
    (nowUnix : UInt64) (verifyPow : Bool)
    (fits : (chain.applyBlockInner offered nowUnix verifyPow).2.headers.length < 2 ^ 64) :
    (chain.applyBlockInner offered nowUnix verifyPow).2 = chain ∨
      (chain.applyBlockInner offered nowUnix verifyPow).2.Holds R
        (full ++ [chain.storedForm offered]) := by
  have tracks := holds.follows.tracks
  rw [Chain.applyBlockInner_eq tracks] at fits ⊢
  cases judged : chain.verdict (chain.storedForm offered) nowUnix verifyPow with
  | error error => exact Or.inl rfl
  | ok accepted =>
      obtain ⟨ledger, undo⟩ := accepted
      rw [judged] at fits
      simp only [Chain.settle, Chain.extend_headers, holds.follows.describes.headers,
        List.length_append, List.length_map, List.length_singleton] at fits
      have bound := holds.follows.describes.skip_le
      refine Or.inr ⟨holds.follows.extend (holds.follows.grows_of_accepted
        (chain.storedForm_stored offered) (Chain.verdict_eq_ok.mp judged)) fits,
        holds.archive, ?_⟩
      simp only [Chain.settle, Chain.extend_firstHeight, Chain.extend_horizon,
        Chain.extend_horizonWork, Chain.extend_network]
      rw [List.take_append_of_le_length bound]
      exact holds.horizon

theorem Chain.Holds.applyBlockFromOwnDisk (holds : chain.Holds R full) (offered : Block)
    (admits : R.admits chain.ledger (chain.storedForm offered).body)
    (fits : (chain.applyBlockFromOwnDisk offered).2.headers.length < 2 ^ 64) :
    (chain.applyBlockFromOwnDisk offered).2 = chain ∨
      (chain.applyBlockFromOwnDisk offered).2.Holds R
        (full ++ [chain.storedForm offered]) := by
  rw [Chain.applyBlockFromOwnDisk_eq] at fits ⊢
  cases judged : chain.ownDiskVerdict (chain.storedForm offered) with
  | error error => exact Or.inl rfl
  | ok replayed =>
      obtain ⟨ledger, undo⟩ := replayed
      rw [judged] at fits
      simp only [Chain.settle, Chain.extend_headers, holds.follows.describes.headers,
        List.length_append, List.length_map, List.length_singleton] at fits
      have bound := holds.follows.describes.skip_le
      refine Or.inr ⟨holds.follows.extend (holds.follows.grows_of_replayed
        (chain.storedForm_stored offered) (Chain.ownDiskVerdict_eq_ok.mp judged) admits) fits,
        holds.archive, ?_⟩
      simp only [Chain.settle, Chain.extend_firstHeight, Chain.extend_horizon,
        Chain.extend_horizonWork, Chain.extend_network]
      rw [List.take_append_of_le_length bound]
      exact holds.horizon

/-- The horizon advances over the dropped bodies without a failure. -/
theorem advanceHorizon_replay {network : NetworkId} (before dropped after : List Block)
    (replays : Chained (ReplaysOn P network) (before ++ dropped ++ after))
    (fits : (before ++ dropped ++ after).length < 2 ^ 64) :
    Chain.advanceHorizon (replay P network before, totalBlockWork before) dropped =
      (.ok (), (replay P network (before ++ dropped),
        totalBlockWork (before ++ dropped))) := by
  induction dropped generalizing before with
  | nil => simp [Chain.advanceHorizon]
  | cons block rest ih =>
      have accepted : ((replay P network before).applyBlockStateOnly block.body
          block.header.height (subsidyAt (replay P network before) block.header.height)).1 =
            .ok () := replays before block (rest ++ after) (by simp)
      have advanced : (replay P network before).applyBlockStateOnly block.body
          block.header.height (subsidyAt (replay P network before) block.header.height) =
            (.ok (), replay P network (before ++ [block])) := by
        rw [replay_concat, ← accepted]
        rfl
      have work : Machine.saturatingAdd128 (totalBlockWork before) block.work =
          totalBlockWork (before ++ [block]) := by
        have short : (before ++ [block]).length < 2 ^ 64 := by
          simp at fits ⊢
          omega
        have bounded := totalBlockWork_lt short
        rw [totalBlockWork_concat] at bounded ⊢
        exact Machine.saturatingAdd128_of_lt bounded
      have later := ih (before ++ [block]) (by simpa using replays) (by simpa using fits)
      simp only [Chain.advanceHorizon, advanced, work, later]
      simp

/-- Pruning never fails on a chain with the invariant, and keeps it. -/
theorem Chain.Holds.pruneKeep (holds : chain.Holds R full) (keep : Nat) :
    (∃ count, (chain.pruneKeep keep).1 = .ok count) ∧ (chain.pruneKeep keep).2.Holds R full := by
  simp only [Chain.pruneKeep]
  by_cases short : chain.blocks.length ≤ max keep 1
  · simp only [short, if_true]
    exact ⟨⟨0, rfl⟩, holds⟩
  · have describes := holds.follows.describes
    have bound := describes.skip_le
    set dropped := chain.blocks.length - max keep 1 with droppedDef
    have start : chain.horizonStart = (replay P chain.network (full.take chain.firstHeight),
        totalBlockWork (full.take chain.firstHeight)) := by
      unfold Chain.horizonStart
      cases found : chain.horizon with
      | none => simp [holds.archive found, totalBlockWork]
      | some horizon =>
          obtain ⟨rfl, work⟩ := holds.horizon horizon found
          simp [work]
    have split : full.take chain.firstHeight ++ chain.blocks.take dropped ++
        chain.blocks.drop dropped = full := by
      rw [List.append_assoc, List.take_append_drop, describes.blocks, List.take_append_drop]
    have advanced := advanceHorizon_replay (full.take chain.firstHeight)
      (chain.blocks.take dropped) (chain.blocks.drop dropped)
      (by rw [split]; exact holds.follows.replays) (by rw [split]; exact describes.fits)
    have length : dropped ≤ full.length - chain.firstHeight := by
      have : chain.blocks.length = full.length - chain.firstHeight := by
        simp [describes.blocks]
      omega
    have front : full.take chain.firstHeight ++ chain.blocks.take dropped =
        full.take (chain.firstHeight + dropped) := by
      rw [describes.blocks, List.take_add]
    rw [front] at advanced
    simp only [short, if_false, start, advanced]
    refine ⟨⟨dropped, rfl⟩, ?_⟩
    exact {
      follows := {
        describes := {
          headers := describes.headers
          blocks := by simp [describes.blocks, List.drop_drop]
          skip_le := by
            show chain.firstHeight + dropped ≤ full.length
            omega
          first_le := le_rfl
          linked := describes.linked
          work := describes.work
          fits := describes.fits
          undos_le := describes.undos_le
          undoWorks := describes.undoWorks }
        replays := holds.follows.replays
        live := holds.follows.live
        tracks := holds.follows.tracks
        covers := holds.follows.covers }
      archive := by simp
      horizon := by
        rintro _ ⟨⟩
        exact ⟨rfl, rfl⟩ }

end Chains

/-! ## Sample runs -/

namespace Sample

/-- Our first three blocks, then a heavier candidate with the altered second body. -/
def alteredOps : List Op :=
  [.applyBlock block0 now, .applyBlock block1 now, .applyBlock block2 now,
    .maybeReorgTo [block0, altered1, block2, block3] now]

def alteredChain : Chain primitives :=
  ((Node.start primitives .devnet).run alteredOps).chain

/-- Our first two blocks. -/
def minedOps : List Op :=
  [.applyBlock block0 now, .applyBlock block1 now]

/-- Our first block, then a longer honest candidate. -/
def honestOps : List Op :=
  [.applyBlock block0 now, .maybeReorgTo [block0, block1] now]

end Sample

end Nightfall
