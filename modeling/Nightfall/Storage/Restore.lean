import Nightfall.Consensus.Replay
import Nightfall.Consensus.Steps
import Nightfall.Ledger.Supply
import Nightfall.Storage.Datadir

/-!
# A chain comes back from its own blocks

`replayStored` on the blocks of a chain rebuilds everything but the undo window: the ledger
of a restorable chain is the replay of its history, and every block of that history links
to the ones before it.
-/

namespace Nightfall

variable {P : Primitives}

/-- Everything that a load brings back. -/
def Chain.withoutUndos (chain : Chain P) : Chain P :=
  { chain with undos := [] }

/-- A chain that was built by replaying `full`. -/
structure Rebuilt (chain : Chain P) (skip : Nat) (full : List Block) : Prop where
  describes : Describes chain skip full
  ledger : chain.ledger = replay P chain.network full

section Rebuild

variable {chain next : Chain P} {skip : Nat} {full rest : List Block} {block : Block}

/-- A block that links and replays is taken from the own file. -/
theorem Rebuilt.ownDisk (rebuilt : Rebuilt chain skip full)
    (links : LinksTo P chain.network full block) (replays : ReplaysOn P chain.network full block)
    (fits : full.length + 1 < 2 ^ 64) :
    ∃ next, chain.applyBlockFromOwnDisk block = (.ok (), next) ∧
      Rebuilt next skip (full ++ [block]) ∧ Chain.SameBase chain next := by
  have stored := Chain.storedForm_of_stored links.stored
  rw [ReplaysOn, ← rebuilt.ledger] at replays
  obtain ⟨ledger, applied⟩ : ∃ ledger, chain.ledger.applyBlockStateOnly block.body
      block.header.height (subsidyAt chain.ledger block.header.height) = (.ok (), ledger) :=
    ⟨_, Prod.ext replays rfl⟩
  obtain ⟨staged, validated, -⟩ := LedgerState.applyBlockStateOnly_ok_iff.mp applied
  obtain ⟨-, -, -, -, present, nodup, -⟩ := LedgerState.validateStateOnly_eq_ok.mp validated
  have captured : chain.ledger.captureUndo block.body = .ok (chain.ledger.undoRecord block.body) :=
    LedgerState.captureUndo_eq_ok.mpr ⟨present, nodup, rfl⟩
  refine ⟨chain.extend block ledger (chain.ledger.undoRecord block.body), ?_, ⟨?_, ?_⟩,
    ⟨rfl, rfl, rfl, rfl⟩⟩
  · rw [Chain.applyBlockFromOwnDisk_eq, stored, Chain.settle_eq_ok]
    exact ⟨ledger, _, Chain.ownDiskVerdict_eq_ok.mpr
      ⟨rebuilt.describes.checkLinkage_eq_ok links, captured, applied⟩, rfl⟩
  · exact rebuilt.describes.extend links fits
  · rw [Chain.extend_ledger, Chain.extend_network, replay_concat, replayBlock, ← rebuilt.ledger,
      applied]

theorem Chain.SameBase.refl (chain : Chain P) : Chain.SameBase chain chain :=
  ⟨rfl, rfl, rfl, rfl⟩

theorem Chain.SameBase.trans {first second third : Chain P} (front : Chain.SameBase first second)
    (back : Chain.SameBase second third) : Chain.SameBase first third :=
  ⟨back.network.trans front.network, back.firstHeight.trans front.firstHeight,
    back.horizon.trans front.horizon, back.horizonWork.trans front.horizonWork⟩

/-- The remaining blocks of a history are replayed one after another. -/
theorem Rebuilt.replayStored (rebuilt : Rebuilt chain skip full)
    (linked : Linked P chain.network (full ++ rest))
    (replays : Chained (ReplaysOn P chain.network) (full ++ rest))
    (fits : (full ++ rest).length < 2 ^ 64) (nowUnix : UInt64) :
    ∃ last, Datadir.replayStored true nowUnix chain rest = .ok last ∧
      Rebuilt last skip (full ++ rest) ∧ Chain.SameBase chain last := by
  induction rest generalizing chain full with
  | nil =>
      rw [List.append_nil]
      exact ⟨chain, rfl, rebuilt, .refl chain⟩
  | cons block rest ih =>
      have short : full.length + 1 < 2 ^ 64 := by
        rw [List.length_append, List.length_cons] at fits
        omega
      obtain ⟨next, accepted, rebuiltNext, same⟩ := rebuilt.ownDisk
        (linked full block rest rfl) (replays full block rest rfl) short
      have shape : full ++ block :: rest = full ++ [block] ++ rest := by simp
      rw [shape, ← same.network] at linked replays
      rw [shape] at fits
      obtain ⟨last, replayed, rebuiltLast, sameLast⟩ := ih rebuiltNext linked replays fits
      refine ⟨last, ?_, by rwa [shape], same.trans sameLast⟩
      simp only [Datadir.replayStored, if_true, Guard.bind_eq_ok, Guard.toExcept_eq_ok]
      exact ⟨next, accepted, replayed⟩

/-- What describes the same blocks on the same base is the same chain. -/
theorem Rebuilt.withoutUndos_eq {other : Chain P} (rebuilt : Rebuilt chain skip full)
    (rebuiltOther : Rebuilt other skip full) (same : Chain.SameBase chain other) :
    chain.withoutUndos = other.withoutUndos := by
  have ledgers : chain.ledger = other.ledger := by
    rw [rebuilt.ledger, rebuiltOther.ledger, same.network]
  have blocks := rebuilt.describes.blocks.trans rebuiltOther.describes.blocks.symm
  have headers := rebuilt.describes.headers.trans rebuiltOther.describes.headers.symm
  have works := rebuilt.describes.work.trans rebuiltOther.describes.work.symm
  obtain ⟨network, ledger, _, _, firstHeight, horizon, horizonWork, totalWork, undos⟩ := chain
  obtain ⟨sameNetwork, sameFirst, sameHorizon, sameWork⟩ := same
  simp only at ledgers blocks headers works sameNetwork sameFirst sameHorizon sameWork
  simp only [Chain.withoutUndos, ledgers, blocks, headers, works, ← sameNetwork, ← sameFirst,
    ← sameHorizon, ← sameWork]

end Rebuild

/-! ## Chains that can be restored -/

/-- A chain keeps a horizon exactly when it dropped bodies. -/
structure Chain.BaseRecorded (chain : Chain P) : Prop where
  archive : chain.firstHeight = 0 → chain.horizon = none ∧ chain.horizonWork = 0
  pruned : 0 < chain.firstHeight → chain.horizon.isSome

/-- A chain whose ledger is the replay of the history `full`, with the roots of its last
header and a supply that adds up. -/
structure Chain.Restorable (chain : Chain P) (full : List Block) : Prop where
  holds : chain.Holds (exactRelation P) full
  base : chain.BaseRecorded
  roots : chain.checkTipRoots = .ok ()
  supply : chain.verifySupply = .ok ()

section Restorable

variable {chain : Chain P} {full : List Block}

theorem Chain.Holds.rebuilt (holds : chain.Holds (exactRelation P) full) :
    Rebuilt chain chain.firstHeight full :=
  ⟨holds.follows.describes, holds.follows.live⟩

/-- The blocks of an archive rebuild it. -/
theorem Chain.Restorable.replayArchive (restorable : chain.Restorable full)
    (archive : chain.firstHeight = 0) (nowUnix : UInt64) :
    ∃ last, Datadir.replayStored true nowUnix (Chain.newFair P chain.network) chain.blocks =
      .ok last ∧ last.withoutUndos = chain.withoutUndos := by
  have describes := restorable.holds.follows.describes
  have start : Rebuilt (Chain.newFair P chain.network) 0 [] :=
    (Chain.holds_newFair (exactRelation P) chain.network).rebuilt
  have blocks : chain.blocks = full := by
    rw [describes.blocks, archive, List.drop_zero]
  obtain ⟨last, replayed, rebuilt, same⟩ := @Rebuilt.replayStored _ _ _ _ full start
    describes.linked restorable.holds.follows.replays describes.fits nowUnix
  refine ⟨last, by rw [blocks]; exact replayed, ?_⟩
  have rebuiltChain := restorable.holds.rebuilt
  rw [archive] at rebuiltChain
  refine rebuilt.withoutUndos_eq rebuiltChain ⟨?_, ?_, ?_, ?_⟩
  · exact same.network.symm
  · exact archive.trans same.firstHeight.symm
  · exact (restorable.base.archive archive).1.trans same.horizon.symm
  · exact (restorable.base.archive archive).2.trans same.horizonWork.symm

/-- The kept blocks of a pruned chain rebuild it on its horizon. -/
theorem Chain.Restorable.replayPruned (restorable : chain.Restorable full)
    {horizon : LedgerState P} (present : chain.horizon = some horizon) (nowUnix : UInt64) :
    ∃ last, Datadir.replayStored true nowUnix
      { Chain.newFair P chain.network with
        firstHeight := chain.firstHeight
        horizonWork := chain.horizonWork
        ledger := horizon
        horizon := some horizon
        totalWork := chain.horizonWork
        headers := chain.headers.take chain.firstHeight } chain.blocks =
      .ok last ∧ last.withoutUndos = chain.withoutUndos := by
  have describes := restorable.holds.follows.describes
  have bound := describes.skip_le
  have fits := describes.fits
  obtain ⟨horizonEq, workEq⟩ := restorable.holds.horizon horizon present
  have start : Rebuilt { Chain.newFair P chain.network with
      firstHeight := chain.firstHeight
      horizonWork := chain.horizonWork
      ledger := horizon
      horizon := some horizon
      totalWork := chain.horizonWork
      headers := chain.headers.take chain.firstHeight }
      chain.firstHeight (full.take chain.firstHeight) := by
    refine ⟨⟨?_, ?_, ?_, le_rfl, describes.linked.take _, workEq, ?_, ?_, ?_⟩, horizonEq⟩
    · simp [describes.headers, List.map_take]
    · simp [Chain.newFair]
    · simp [bound]
    · simp
      omega
    · simp [Chain.newFair]
    · simp [Chain.newFair]
  have split : full.take chain.firstHeight ++ chain.blocks = full := by
    rw [describes.blocks, List.take_append_drop]
  obtain ⟨last, replayed, rebuilt, same⟩ := @Rebuilt.replayStored _ _ _ _ chain.blocks start
    (by rw [split]; exact describes.linked) (by rw [split]; exact restorable.holds.follows.replays)
    (by rw [split]; exact fits) nowUnix
  rw [split] at rebuilt
  refine ⟨last, replayed, rebuilt.withoutUndos_eq restorable.holds.rebuilt ?_⟩
  exact ⟨same.network.symm, same.firstHeight.symm, present.trans same.horizon.symm,
    same.horizonWork.symm⟩

end Restorable

/-! ## Full validation leaves restorable chains -/

theorem Chain.verifySupply_newFair (network : NetworkId) :
    (newFair P network).verifySupply = .ok () := by
  have sound := LedgerState.sound_forNetwork (P := P) network
  simp only [verifySupply, newFair, LedgerState.verifySupply, verifySupplyInvariant,
    Guard.mapError_eq_ok, Guard.bind_eq_ok, Guard.need_eq_ok, supplyEquationHolds_eq_ok]
  exact ⟨_, sound.commitmentSum_eq, 0, by simp [LedgerState.forNetwork],
    by simp [LedgerState.forNetwork, SupplyState.initial, SupplyState.circulating, UtxoSet.empty,
      Machine.saturatingSub, commitPublicValue], sound.minted_le⟩

section Validated

variable {chain next : Chain P} {full : List Block} {block : Block} {nowUnix : UInt64}
  {verifyPow : Bool}

/-- An accepted block keeps a chain restorable. -/
theorem Chain.Restorable.applyBlockInner (restorable : chain.Restorable full)
    (accepted : chain.applyBlockInner block nowUnix verifyPow = (.ok (), next))
    (fits : full.length + 1 < 2 ^ 64) :
    next.Restorable (full ++ [chain.storedForm block]) := by
  have tracks := restorable.holds.follows.tracks
  have tip := tip_of_accepted tracks accepted
  have headers := (applyBlockInner_network tracks accepted).2
  have count := congrArg List.length restorable.holds.follows.describes.headers
  rw [List.length_map] at count
  have grown := restorable.holds.applyBlockInner block nowUnix verifyPow
    (by rw [accepted, headers, count]; exact fits)
  rw [accepted] at grown
  have base : next.BaseRecorded := by
    rw [applyBlockInner_eq tracks, settle_eq_ok] at accepted
    obtain ⟨ledger, undo, -, rfl⟩ := accepted
    exact ⟨restorable.base.archive, restorable.base.pruned⟩
  rcases grown with same | holds
  · change next = chain at same
    rw [same] at headers
    omega
  · exact ⟨holds, base, tip.1, tip.2⟩

theorem Chain.restorable_newFair (network : NetworkId) : (newFair P network).Restorable [] where
  holds := holds_newFair _ network
  base := ⟨fun _ => ⟨rfl, rfl⟩, fun pos => absurd pos (Nat.lt_irrefl 0)⟩
  roots := rfl
  supply := verifySupply_newFair network

theorem Chain.Restorable.applyAll {last : Chain P} {blocks : List Block}
    (restorable : chain.Restorable full)
    (reached : Chain.applyAll nowUnix chain blocks = .ok last)
    (fits : full.length + blocks.length < 2 ^ 64) :
    last.Restorable (full ++ blocks.map chain.storedForm) ∧ last.network = chain.network ∧
      last.firstHeight = chain.firstHeight := by
  induction blocks generalizing chain full with
  | nil =>
      obtain rfl := Except.ok.inj reached
      simpa using restorable
  | cons block rest ih =>
      simp only [List.length_cons] at fits
      simp only [Chain.applyAll, Guard.bind_eq_ok, Guard.toExcept_eq_ok] at reached
      obtain ⟨next, accepted, reachedRest⟩ := reached
      have network := (applyBlockInner_network restorable.holds.follows.tracks accepted).1
      have first : next.firstHeight = chain.firstHeight := by
        have step := accepted
        rw [Chain.applyBlock, applyBlockInner_eq restorable.holds.follows.tracks,
          settle_eq_ok] at step
        obtain ⟨ledger, undo, -, rfl⟩ := step
        rfl
      obtain ⟨there, sameNetwork, sameFirst⟩ := ih
        (restorable.applyBlockInner accepted (by omega)) reachedRest (by simp; omega)
      rw [storedForm_of_network_eq network, List.append_assoc] at there
      exact ⟨by simpa using there, sameNetwork.trans network, sameFirst.trans first⟩

/-- Without trust the blocks are applied in full. -/
theorem Datadir.replayStored_untrusted {chain : Chain P} {blocks : List Block} :
    Datadir.replayStored false nowUnix chain blocks = Chain.applyAll nowUnix chain blocks := by
  induction blocks generalizing chain with
  | nil => rfl
  | cons block rest ih =>
      simp only [Datadir.replayStored, Chain.applyAll, Bool.false_eq_true, if_false, ih]

/-- A replay ends with the replayed blocks. -/
theorem Datadir.blocks_of_replayStored {chain last : Chain P} {blocks : List Block}
    (replayed : Datadir.replayStored true nowUnix chain blocks = .ok last) :
    last.blocks = chain.blocks ++ blocks.map chain.storedForm := by
  induction blocks generalizing chain with
  | nil =>
      obtain rfl := Except.ok.inj replayed
      simp
  | cons block rest ih =>
      simp only [Datadir.replayStored, if_true, Guard.bind_eq_ok, Guard.toExcept_eq_ok] at replayed
      obtain ⟨next, applied, replayedRest⟩ := replayed
      have network := (Chain.applyBlockFromOwnDisk_network applied).1
      rw [Chain.applyBlockFromOwnDisk_eq, Chain.settle_eq_ok] at applied
      obtain ⟨ledger, undo, -, grown⟩ := applied
      have shape : (rest.map next.storedForm) = rest.map chain.storedForm := by
        rw [Chain.storedForm_of_network_eq network]
      rw [ih replayedRest, shape, grown, Chain.extend_blocks, List.append_assoc]
      rfl

/-- The replay takes a block in its stored form. -/
theorem Datadir.replayStored_storedForm {chain : Chain P} {blocks : List Block} :
    Datadir.replayStored true nowUnix chain (blocks.map chain.storedForm) =
      Datadir.replayStored true nowUnix chain blocks := by
  induction blocks generalizing chain with
  | nil => rfl
  | cons block rest ih =>
      have once : chain.storedForm (chain.storedForm block) = chain.storedForm block :=
        Chain.storedForm_of_stored (chain.storedForm_stored block)
      have first : chain.applyBlockFromOwnDisk (chain.storedForm block) =
          chain.applyBlockFromOwnDisk block := by
        rw [Chain.applyBlockFromOwnDisk_eq, Chain.applyBlockFromOwnDisk_eq, once]
      simp only [List.map_cons, Datadir.replayStored, if_true, first]
      cases outcome : Guard.toExcept (chain.applyBlockFromOwnDisk block) with
      | error error => rfl
      | ok next =>
          rw [Guard.toExcept_eq_ok] at outcome
          have network := (Chain.applyBlockFromOwnDisk_network outcome).1
          change Datadir.replayStored true nowUnix next (rest.map chain.storedForm) =
            Datadir.replayStored true nowUnix next rest
          rw [← Chain.storedForm_of_network_eq network]
          exact ih

/-- Blocks that were validated in full rebuild the same chain without validation. -/
theorem Chain.Restorable.replay_of_applyAll {network : NetworkId} {blocks : List Block}
    (reached : Chain.applyAll nowUnix (Chain.newFair P network) blocks = .ok chain)
    (fits : blocks.length < 2 ^ 64) (later : UInt64) :
    ∃ last, Datadir.replayStored true later (Chain.newFair P network) blocks = .ok last ∧
      last.withoutUndos = chain.withoutUndos ∧ chain.checkTipRoots = .ok () := by
  obtain ⟨restorable, sameNetwork, first⟩ :=
    (Chain.restorable_newFair network).applyAll reached (by simpa using fits)
  have archive : chain.firstHeight = 0 := first
  have sameNetwork : chain.network = network := sameNetwork
  obtain ⟨last, replayed, same⟩ := restorable.replayArchive archive later
  have blocks := restorable.holds.follows.describes.blocks
  rw [archive, List.drop_zero, List.nil_append] at blocks
  rw [sameNetwork, blocks, Datadir.replayStored_storedForm] at replayed
  exact ⟨last, replayed, same, restorable.roots⟩

end Validated

end Nightfall
