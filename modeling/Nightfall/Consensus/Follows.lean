import Nightfall.Consensus.History

/-!
# Every accepted block continues the history

One accepted block extends the described list by itself, keeps the ledger related to
the replay and adds an undo record that leads back.  From this single step the
replay of a candidate and the verification of a suffix follow by induction.
-/

namespace Nightfall

variable {P : Primitives}

/-- A block that continues the history of a chain. -/
structure Grows (R : LiveRelation P) (chain : Chain P) (full : List Block) (block : Block)
    (ledger : LedgerState P) (undo : StateUndo) : Prop where
  links : LinksTo P chain.network full block
  applied : chain.ledger.applyBlockStateOnly block.body block.header.height
    (subsidyAt chain.ledger block.header.height) = (.ok (), ledger)
  captured : chain.ledger.captureUndo block.body = .ok undo
  admits : R.admits chain.ledger block.body
  tracks : ledger.utxos.Tracks

section Extend

variable {R : LiveRelation P} {chain : Chain P} {skip : Nat} {full : List Block}
  {block : Block} {ledger : LedgerState P} {undo : StateUndo}

theorem Chain.trimUndos_suffix (undos : List TipUndo) : Chain.trimUndos undos <:+ undos :=
  List.drop_suffix _ _

theorem Chain.trimUndos_length (undos : List TipUndo) :
    (Chain.trimUndos undos).length ≤ maxReorgDepth := by
  unfold Chain.trimUndos
  rw [List.length_drop]
  omega

theorem Describes.extend (describes : Describes chain skip full)
    (links : LinksTo P chain.network full block) (fits : full.length + 1 < 2 ^ 64) :
    Describes (chain.extend block ledger undo) skip (full ++ [block]) where
  headers := by simp [describes.headers]
  blocks := by
    rw [Chain.extend_blocks, describes.blocks, List.drop_append_of_le_length describes.skip_le]
  skip_le := by
    have := describes.skip_le
    simp
    omega
  first_le := describes.first_le
  linked := describes.linked.concat links
  work := by
    have bounded := @totalBlockWork_lt (full ++ [block]) (by simpa using fits)
    rw [totalBlockWork_concat] at bounded ⊢
    rw [Chain.extend_totalWork, describes.work, Machine.saturatingAdd128_of_lt bounded]
  fits := by simpa using fits
  undos_le := by
    rw [Chain.extend_undos]
    exact Chain.trimUndos_length _
  undoWorks := by
    rw [Chain.extend_undos]
    refine ((Chain.trimUndos_suffix _).map _).trans ?_
    rw [List.map_append, List.map_append]
    exact List.suffix_append_self_iff.mpr describes.undoWorks

/-- The replay of the described blocks accepts the block too, and stays related. -/
theorem Follows.replay_step (follows : Follows R chain skip full)
    (grows : Grows R chain full block ledger undo) :
    ReplaysOn P chain.network full block ∧
      R.rel ledger (replayBlock (replay P chain.network full) block) ∧
      (replay P chain.network full).applyBlockStateOnly block.body block.header.height
        (subsidyAt chain.ledger block.header.height) =
          (.ok (), replayBlock (replay P chain.network full) block) := by
  have sameSubsidy : subsidyAt (replay P chain.network full) block.header.height =
      subsidyAt chain.ledger block.header.height := by
    simp [subsidyAt, R.supply_eq follows.live]
  obtain ⟨replayedNext, replayed, related⟩ := R.step follows.live grows.applied
  have next : replayBlock (replay P chain.network full) block = replayedNext := by
    rw [replayBlock, sameSubsidy, replayed]
  refine ⟨?_, next ▸ related, next ▸ replayed⟩
  rw [ReplaysOn, sameSubsidy, replayed]

/-- One accepted block continues the history. -/
theorem Follows.extend (follows : Follows R chain skip full)
    (grows : Grows R chain full block ledger undo) (fits : full.length + 1 < 2 ^ 64) :
    Follows R (chain.extend block ledger undo) skip (full ++ [block]) where
  describes := follows.describes.extend grows.links fits
  replays := follows.replays.concat (follows.replay_step grows).1
  live := by
    rw [Chain.extend_network, replay_concat]
    exact (follows.replay_step grows).2.1
  tracks := grows.tracks
  covers := by
    obtain ⟨present, nodup, rfl⟩ := LedgerState.captureUndo_eq_ok.mp grows.captured
    let past : ℕ → LedgerState P → Prop := fun moment state =>
      R.rel state (replay P chain.network ((full ++ [block]).take moment))
    have earlier : UndoLog.Covers LedgerState.rewind past full.length
        (chain.undos.map TipUndo.state) := by
      refine follows.covers.congr fun moment _ inside => ?_
      simp only [past, List.take_append_of_le_length inside]
    have inverse : ∀ state, past (full.length + 1) state →
        past full.length (state.rewind (chain.ledger.undoRecord block.body)) := by
      intro state reached
      simp only [past] at reached ⊢
      rw [List.take_of_length_le (by simp), replay_concat] at reached
      rw [List.take_append_of_le_length le_rfl, List.take_length]
      exact R.undo (replay_tracks _ _) follows.live grows.admits present nodup
        (follows.replay_step grows).2.2 reached
    have pushed := earlier.push inverse
    rw [Chain.extend_undos, List.length_append, List.length_singleton]
    refine pushed.suffix ?_
    have trimmed := (Chain.trimUndos_suffix (chain.undos ++
      [⟨block.work, chain.ledger.undoRecord block.body⟩])).map TipUndo.state
    simpa using trimmed

end Extend

/-! ## Where growth comes from -/

theorem Chain.storedForm_header (chain : Chain P) (block : Block) :
    (chain.storedForm block).header = block.header := by
  unfold Chain.storedForm
  split <;> simp

theorem Chain.storedForm_of_network_eq {left right : Chain P}
    (same : left.network = right.network) : left.storedForm = right.storedForm := by
  funext block
  simp [Chain.storedForm, Chain.bindingActiveAt, same]

theorem Block.stripBinding_stripBinding (block : Block) :
    block.stripBinding.stripBinding = block.stripBinding := by
  simp [Block.stripBinding]

theorem Chain.storedForm_stored (chain : Chain P) (block : Block)
    (below : ¬(chain.storedForm block).header.height ≥ chain.network.bindingForkHeight) :
    (chain.storedForm block).stripBinding = chain.storedForm block := by
  rw [Chain.storedForm_header] at below
  have inactive : chain.bindingActiveAt block.header.height = false := by
    simpa [Chain.bindingActiveAt] using below
  simp [Chain.storedForm, inactive, Block.stripBinding_stripBinding]

/-- A body that stripping leaves alone has no binding fields. -/
theorem BlockBody.hasAnyBinding_of_stripBinding_eq {body : BlockBody}
    (same : body.stripBinding = body) : body.hasAnyBinding = false := by
  rw [← same]
  exact BlockBody.stripBinding_hasAnyBinding body

section Growth

variable {R : LiveRelation P} {chain : Chain P} {skip : Nat} {full : List Block}
  {block : Block} {ledger : LedgerState P} {undo : StateUndo}

/-- The linkage checks, read on the described list. -/
theorem Describes.linksTo (describes : Describes chain skip full)
    (version : block.header.version = protocolVersion)
    (height : block.header.height = chain.nextHeight)
    (prevHash : block.header.prevHash = chain.tipHash)
    (pin : Chain.checkPin (P := P) block = .ok ())
    (stored : ¬block.header.height ≥ chain.network.bindingForkHeight →
      block.stripBinding = block) : LinksTo P chain.network full block where
  version := version
  height := by rw [height, describes.nextHeight_toNat]
  prevHash := by rw [prevHash, describes.tipHash_eq]
  pin := pin
  stored := stored

/-- Conversely, a block that links to the described list passes the linkage checks. -/
theorem Describes.checkLinkage_eq_ok (describes : Describes chain skip full)
    (links : LinksTo P chain.network full block) : chain.checkLinkage block = .ok () := by
  simp only [Chain.checkLinkage, Guard.bind_eq_ok, Guard.refuse_eq_ok, not_not]
  refine ⟨(), links.version, (), ?_, (), ?_, links.pin⟩
  · rw [← UInt64.toNat_inj, links.height, describes.nextHeight_toNat]
  · rw [links.prevHash, describes.tipHash_eq]

theorem Chain.checkLinkage_eq_ok :
    chain.checkLinkage block = .ok () ↔
      block.header.version = protocolVersion ∧ block.header.height = chain.nextHeight ∧
        block.header.prevHash = chain.tipHash ∧ Chain.checkPin (P := P) block = .ok () := by
  simp [Chain.checkLinkage]

/-- What full validation checks before it touches the ledger. -/
theorem Chain.checkBlock_eq_ok {nowUnix : UInt64} {verifyPow : Bool} :
    chain.checkBlock block nowUnix verifyPow = .ok () ↔
      block.header.version = protocolVersion ∧
      (block.body.outputs ≠ [] ∧ block.body.kernels ≠ []) ∧
      block.body.exceedsSizeLimits = false ∧
      block.header.height = chain.nextHeight ∧
      block.header.prevHash = chain.tipHash ∧
      Chain.checkPin (P := P) block = .ok () ∧
      (verifyPow = true → block.header.timestampUnix ≤
        Machine.saturatingAdd nowUnix maxFutureDriftSecs) ∧
      (chain.blockCount > 0 → chain.medianTimePast < block.header.timestampUnix) ∧
      block.header.difficulty = chain.nextDifficulty ∧
      (verifyPow = true → block.powIsValid P chain.network.powParams = true) ∧
      block.header.rewardDarks = LedgerState.coinbaseDue block.body
        (subsidyAt chain.ledger block.header.height) ∧
      block.body.hash P = block.header.bodyRoot := by
  simp [Chain.checkBlock, not_or]

/-- An accepted block continues the history. -/
theorem Follows.grows_of_accepted (follows : Follows R chain skip full) {nowUnix : UInt64}
    {verifyPow : Bool}
    (stored : ¬block.header.height ≥ chain.network.bindingForkHeight →
      block.stripBinding = block)
    (accepted : chain.Accepted block nowUnix verifyPow ledger undo) :
    Grows R chain full block ledger undo := by
  obtain ⟨version, _, _, height, prevHash, pin, _⟩ := Chain.checkBlock_eq_ok.mp accepted.checked
  obtain ⟨coinbase, offset, staged, valid, committed⟩ :=
    (LedgerState.applyBlock_ok_iff follows.tracks).mp accepted.applied
  have binding : chain.ledger.bindingHeight = chain.network.bindingForkHeight := by
    rw [R.binding_eq follows.live, replay_bindingHeight]
  have unbound : chain.ledger.bindingActive block.header.height = false →
      block.body.hasAnyBinding = false := by
    intro inactive
    have below : ¬block.header.height ≥ chain.network.bindingForkHeight := by
      simpa [LedgerState.bindingActive, binding] using inactive
    exact BlockBody.hasAnyBinding_of_stripBinding_eq (congrArg Block.body (stored below))
  have visible : chain.ledger.visibleBody block.body block.header.height = block.body := by
    unfold LedgerState.visibleBody
    split
    next hidden =>
        simp only [Bool.and_eq_true, Bool.not_eq_true'] at hidden
        rw [unbound hidden.1] at hidden
        simp at hidden
    next => rfl
  rw [visible] at valid committed
  refine ⟨follows.describes.linksTo version height prevHash pin stored, ?_, accepted.captured,
    R.admits_of_overwritesNothing valid.overwritesNothing, accepted.tracks follows.tracks⟩
  rw [committed]
  apply LedgerState.applyBlockStateOnly_of_valid valid
  intro inactive
  rw [← visible]
  exact LedgerState.visibleBody_kernelOffset inactive

/-- A replayed block continues the history when a rewind over it keeps the relation. -/
theorem Follows.grows_of_replayed (follows : Follows R chain skip full)
    (stored : ¬block.header.height ≥ chain.network.bindingForkHeight →
      block.stripBinding = block)
    (replayed : chain.Replayed block ledger undo)
    (admits : R.admits chain.ledger block.body) : Grows R chain full block ledger undo := by
  obtain ⟨version, height, prevHash, pin⟩ := Chain.checkLinkage_eq_ok.mp replayed.linked
  exact ⟨follows.describes.linksTo version height prevHash pin stored, replayed.applied,
    replayed.captured, admits, replayed.tracks follows.tracks⟩

/-- An accepted `applyBlock` appends the stored form of the block. -/
theorem Follows.applyBlockInner (follows : Follows R chain skip full) {offered : Block}
    {nowUnix : UInt64} {verifyPow : Bool} {next : Chain P}
    (applied : chain.applyBlockInner offered nowUnix verifyPow = (.ok (), next))
    (fits : full.length + 1 < 2 ^ 64) :
    Follows R next skip (full ++ [chain.storedForm offered]) := by
  rw [Chain.applyBlockInner_eq follows.tracks, Chain.settle_eq_ok] at applied
  obtain ⟨ledger, undo, judged, rfl⟩ := applied
  exact follows.extend (follows.grows_of_accepted (chain.storedForm_stored offered)
    (Chain.verdict_eq_ok.mp judged)) fits

/-- An accepted replay appends the stored form of the block. -/
theorem Follows.applyBlockFromOwnDisk (follows : Follows R chain skip full) {offered : Block}
    {next : Chain P} (applied : chain.applyBlockFromOwnDisk offered = (.ok (), next))
    (admits : R.admits chain.ledger (chain.storedForm offered).body)
    (fits : full.length + 1 < 2 ^ 64) :
    Follows R next skip (full ++ [chain.storedForm offered]) := by
  rw [Chain.applyBlockFromOwnDisk_eq, Chain.settle_eq_ok] at applied
  obtain ⟨ledger, undo, judged, rfl⟩ := applied
  exact follows.extend (follows.grows_of_replayed (chain.storedForm_stored offered)
    (Chain.ownDiskVerdict_eq_ok.mp judged) admits) fits

end Growth

/-! ## Loops -/

namespace Chain

theorem applyBlockInner_network {chain next : Chain P} {block : Block} {nowUnix : UInt64}
    {verifyPow : Bool} (tracks : chain.ledger.utxos.Tracks)
    (applied : chain.applyBlockInner block nowUnix verifyPow = (.ok (), next)) :
    next.network = chain.network ∧ next.headers.length = chain.headers.length + 1 := by
  rw [applyBlockInner_eq tracks, settle_eq_ok] at applied
  obtain ⟨ledger, undo, _, rfl⟩ := applied
  simp

theorem applyBlockFromOwnDisk_network {chain next : Chain P} {block : Block}
    (applied : chain.applyBlockFromOwnDisk block = (.ok (), next)) :
    next.network = chain.network ∧ next.headers.length = chain.headers.length + 1 := by
  rw [applyBlockFromOwnDisk_eq, settle_eq_ok] at applied
  obtain ⟨ledger, undo, _, rfl⟩ := applied
  simp

/-- The condition holds of every block that a replay takes as our own, on the chain it is
replayed on. -/
def AlongTrusted (condition : Chain P → Block → Prop) (trustedPrefix : Nat) :
    Nat → Chain P → List Block → Prop
  | _, _, [] => True
  | index, chain, block :: rest =>
      index < trustedPrefix →
        condition chain block ∧
          ∀ next, chain.applyBlockFromOwnDisk block = (.ok (), next) →
            AlongTrusted condition trustedPrefix (index + 1) next rest

instance AlongTrusted.decidable (condition : Chain P → Block → Prop)
    [∀ chain block, Decidable (condition chain block)] (trustedPrefix : Nat) :
    (index : Nat) → (chain : Chain P) → (blocks : List Block) →
      Decidable (AlongTrusted condition trustedPrefix index chain blocks)
  | _, _, [] => isTrue trivial
  | index, chain, block :: rest =>
      match outcome : chain.applyBlockFromOwnDisk block with
      | (.ok (), next) =>
          have := AlongTrusted.decidable condition trustedPrefix (index + 1) next rest
          decidable_of_iff (index < trustedPrefix → condition chain block ∧
            AlongTrusted condition trustedPrefix (index + 1) next rest)
            (by simp [AlongTrusted, outcome])
      | (.error _, _) =>
          decidable_of_iff (index < trustedPrefix → condition chain block)
            (by simp [AlongTrusted, outcome])

theorem AlongTrusted.of_forall {condition : Chain P → Block → Prop}
    (always : ∀ chain block, condition chain block) (trustedPrefix index : Nat)
    (chain : Chain P) (blocks : List Block) :
    AlongTrusted condition trustedPrefix index chain blocks := by
  induction blocks generalizing index chain with
  | nil => trivial
  | cons block rest ih => exact fun _ => ⟨always chain block, fun next _ => ih _ next⟩

theorem AlongTrusted.mono {condition weaker : Chain P → Block → Prop}
    (implies : ∀ chain block, condition chain block → weaker chain block)
    {trustedPrefix index : Nat} {chain : Chain P} {blocks : List Block}
    (along : AlongTrusted condition trustedPrefix index chain blocks) :
    AlongTrusted weaker trustedPrefix index chain blocks := by
  induction blocks generalizing index chain with
  | nil => trivial
  | cons block rest ih =>
      intro trusted
      obtain ⟨here, later⟩ := along trusted
      exact ⟨implies chain block here, fun next accepted => ih (later next accepted)⟩

/-- Past the trusted prefix nothing is replayed as our own. -/
theorem AlongTrusted.of_le (condition : Chain P → Block → Prop) {trustedPrefix index : Nat}
    (past : trustedPrefix ≤ index) (chain : Chain P) (blocks : List Block) :
    AlongTrusted condition trustedPrefix index chain blocks := by
  cases blocks with
  | nil => trivial
  | cons block rest => exact fun trusted => absurd trusted (Nat.not_lt.mpr past)

theorem length_of_replayFrom {trustedPrefix index : Nat} {nowUnix : UInt64}
    {chain last : Chain P} {blocks : List Block} (tracked : chain.Tracked)
    (rebuilt : replayFrom trustedPrefix nowUnix index chain blocks = .ok last) :
    last.headers.length = chain.headers.length + blocks.length := by
  induction blocks generalizing chain index with
  | nil =>
      obtain rfl := Except.ok.inj rebuilt
      rfl
  | cons block rest ih =>
      simp only [replayFrom] at rebuilt
      split at rebuilt
      · simp only [Guard.bind_eq_ok, Guard.toExcept_eq_ok] at rebuilt
        obtain ⟨next, accepted, rebuiltRest⟩ := rebuilt
        have nextTracked := tracked.applyBlockFromOwnDisk block
        rw [accepted] at nextTracked
        have grown := (applyBlockFromOwnDisk_network accepted).2
        rw [ih nextTracked rebuiltRest, grown, List.length_cons]
        omega
      · simp only [Guard.bind_eq_ok, Guard.toExcept_eq_ok] at rebuilt
        obtain ⟨_, _, next, accepted, rebuiltRest⟩ := rebuilt
        have nextTracked := tracked.applyBlockInner block nowUnix true
        rw [← Chain.applyBlock, accepted] at nextTracked
        have grown := (applyBlockInner_network tracked.ledger accepted).2
        rw [ih nextTracked rebuiltRest, grown, List.length_cons]
        omega

theorem length_of_applyAll {nowUnix : UInt64} {chain last : Chain P} {blocks : List Block}
    (tracked : chain.Tracked) (reached : applyAll nowUnix chain blocks = .ok last) :
    last.headers.length = chain.headers.length + blocks.length := by
  induction blocks generalizing chain with
  | nil =>
      obtain rfl := Except.ok.inj reached
      rfl
  | cons block rest ih =>
      simp only [applyAll, Guard.bind_eq_ok, Guard.toExcept_eq_ok] at reached
      obtain ⟨next, accepted, reachedRest⟩ := reached
      have nextTracked := tracked.applyBlockInner block nowUnix true
      rw [← Chain.applyBlock, accepted] at nextTracked
      have grown := (applyBlockInner_network tracked.ledger accepted).2
      rw [ih nextTracked reachedRest, grown, List.length_cons]
      omega

end Chain

section Loops

variable {R : LiveRelation P} {skip : Nat}

/-- The replay of a candidate continues the history by the stored form of its blocks. -/
theorem Follows.replayFrom {trustedPrefix index : Nat} {nowUnix : UInt64}
    {chain last : Chain P} {full blocks : List Block} (tracked : chain.Tracked)
    (follows : Follows R chain skip full)
    (admits : Chain.AlongTrusted
      (fun current block => R.admits current.ledger (current.storedForm block).body)
      trustedPrefix index chain blocks)
    (rebuilt : Chain.replayFrom trustedPrefix nowUnix index chain blocks = .ok last)
    (fits : full.length + blocks.length < 2 ^ 64) :
    Follows R last skip (full ++ blocks.map chain.storedForm) ∧
      last.network = chain.network := by
  induction blocks generalizing chain full index with
  | nil =>
      obtain rfl := Except.ok.inj rebuilt
      simpa using follows
  | cons block rest ih =>
      simp only [List.length_cons] at fits
      simp only [Chain.replayFrom] at rebuilt
      split at rebuilt
      next trusted =>
          simp only [Guard.bind_eq_ok, Guard.toExcept_eq_ok] at rebuilt
          obtain ⟨next, accepted, rebuiltRest⟩ := rebuilt
          obtain ⟨admitsHere, admitsRest⟩ := admits trusted
          have nextTracked := tracked.applyBlockFromOwnDisk block
          rw [accepted] at nextTracked
          have network := (Chain.applyBlockFromOwnDisk_network accepted).1
          have here := follows.applyBlockFromOwnDisk accepted admitsHere (by omega)
          obtain ⟨there, sameNetwork⟩ := ih nextTracked here (admitsRest next accepted)
            rebuiltRest (by simp; omega)
          rw [Chain.storedForm_of_network_eq network, List.append_assoc] at there
          exact ⟨by simpa using there, sameNetwork.trans network⟩
      next untrusted =>
          simp only [Guard.bind_eq_ok, Guard.toExcept_eq_ok] at rebuilt
          obtain ⟨_, _, next, accepted, rebuiltRest⟩ := rebuilt
          have nextTracked := tracked.applyBlockInner block nowUnix true
          rw [← Chain.applyBlock, accepted] at nextTracked
          have network := (Chain.applyBlockInner_network tracked.ledger accepted).1
          have here := follows.applyBlockInner accepted (by omega)
          have past : Chain.AlongTrusted
              (fun current block => R.admits current.ledger (current.storedForm block).body)
              trustedPrefix (index + 1) next rest :=
            Chain.AlongTrusted.of_le _ (by omega) next rest
          obtain ⟨there, sameNetwork⟩ := ih nextTracked here past rebuiltRest (by simp; omega)
          rw [Chain.storedForm_of_network_eq network, List.append_assoc] at there
          exact ⟨by simpa using there, sameNetwork.trans network⟩

/-- A verified suffix continues the history by the stored form of its blocks. -/
theorem Follows.applyAll {nowUnix : UInt64} {chain last : Chain P} {full blocks : List Block}
    (tracked : chain.Tracked) (follows : Follows R chain skip full)
    (reached : Chain.applyAll nowUnix chain blocks = .ok last)
    (fits : full.length + blocks.length < 2 ^ 64) :
    Follows R last skip (full ++ blocks.map chain.storedForm) ∧
      last.network = chain.network := by
  induction blocks generalizing chain full with
  | nil =>
      obtain rfl := Except.ok.inj reached
      simpa using follows
  | cons block rest ih =>
      simp only [List.length_cons] at fits
      simp only [Chain.applyAll, Guard.bind_eq_ok, Guard.toExcept_eq_ok] at reached
      obtain ⟨next, accepted, reachedRest⟩ := reached
      have nextTracked := tracked.applyBlockInner block nowUnix true
      rw [← Chain.applyBlock, accepted] at nextTracked
      have network := (Chain.applyBlockInner_network tracked.ledger accepted).1
      have here := follows.applyBlockInner accepted (by omega)
      obtain ⟨there, sameNetwork⟩ := ih nextTracked here reachedRest (by simp; omega)
      rw [Chain.storedForm_of_network_eq network, List.append_assoc] at there
      exact ⟨by simpa using there, sameNetwork.trans network⟩

end Loops

end Nightfall
