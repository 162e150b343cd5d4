import Nightfall.Library.Chained
import Nightfall.Consensus.Atomicity

/-!
# Block histories

A chain keeps several redundant records of one list of blocks.  `Describes` says that
they agree on a list `full` reaching back to genesis, `Follows` adds the ledger: it is
related to the replay of `full`, and the undo window leads back through the replays of
its prefixes.  The relation is a parameter, since a rewind over a replayed block is
exact only for some bodies.
-/

namespace Nightfall

variable (P : Primitives)

/-! ## Linked lists of blocks -/

/-- Hash of the last block, or the genesis hash. -/
def tipHashOf (network : NetworkId) (blocks : List Block) : Hash256 :=
  (blocks.getLast?.map (Block.hash P)).getD (genesisHash P network)

@[simp] theorem tipHashOf_concat (network : NetworkId) (blocks : List Block) (block : Block) :
    tipHashOf P network (blocks ++ [block]) = block.hash P := by
  simp [tipHashOf]

/-- The block extends the blocks before it. -/
structure LinksTo (network : NetworkId) (before : List Block) (block : Block) : Prop where
  version : block.header.version = protocolVersion
  height : block.header.height.toNat = before.length
  prevHash : block.header.prevHash = tipHashOf P network before
  pin : Chain.checkPin (P := P) block = .ok ()
  /-- Below the fork the body carries no binding fields. -/
  stored : ¬block.header.height ≥ network.bindingForkHeight → block.stripBinding = block

/-- A block list from genesis. -/
abbrev Linked (network : NetworkId) (full : List Block) : Prop :=
  Chained (LinksTo P network) full

variable {P}

theorem totalBlockWork_append (front back : List Block) :
    totalBlockWork (front ++ back) = totalBlockWork front + totalBlockWork back := by
  simp [totalBlockWork]

theorem totalBlockWork_concat (blocks : List Block) (block : Block) :
    totalBlockWork (blocks ++ [block]) = totalBlockWork blocks + block.work := by
  simp [totalBlockWork]

theorem totalBlockWork_lt {blocks : List Block} (fits : blocks.length < 2 ^ 64) :
    totalBlockWork blocks < 2 ^ 128 := by
  have bounded : totalBlockWork blocks ≤ blocks.length * (2 ^ 64 - 1) := by
    unfold totalBlockWork
    have each : ∀ work ∈ blocks.map Block.work, work ≤ 2 ^ 64 - 1 := by
      intro work member
      obtain ⟨block, _, rfl⟩ := List.mem_map.mp member
      have := blockWork_lt block.header.difficulty
      unfold Block.work
      omega
    simpa using List.sum_le_card_nsmul _ _ each
  calc
    totalBlockWork blocks ≤ blocks.length * (2 ^ 64 - 1) := bounded
    _ ≤ 2 ^ 64 * (2 ^ 64 - 1) := Nat.mul_le_mul_right _ fits.le
    _ < 2 ^ 128 := by norm_num

theorem totalBlockWork_pos {blocks : List Block} (nonempty : blocks ≠ []) :
    0 < totalBlockWork blocks := by
  cases blocks with
  | nil => contradiction
  | cons block rest =>
      have := blockWork_pos block.header.difficulty
      simp only [totalBlockWork, List.map_cons, List.sum_cons, Block.work]
      omega

/-- The work of a list is read off its headers. -/
theorem totalBlockWork_congr {left right : List Block}
    (headers : left.map Block.header = right.map Block.header) :
    totalBlockWork left = totalBlockWork right := by
  have works (blocks : List Block) : blocks.map Block.work =
      (blocks.map Block.header).map fun header => blockWork header.difficulty := by
    simp [Block.work, Function.comp_def]
  rw [totalBlockWork, totalBlockWork, works left, works right, headers]

/-- Two linked lists with the same tip hash have the same headers, when the hash does
not collide on them. -/
theorem headers_eq_of_tipHash_eq {network : NetworkId} {known : Set BlockHeader}
    (collisionFree : Set.InjOn (BlockHeader.hash P) known) {left right : List Block}
    (leftLinked : Linked P network left) (rightLinked : Linked P network right)
    (leftKnown : ∀ block ∈ left, block.header ∈ known)
    (rightKnown : ∀ block ∈ right, block.header ∈ known)
    (leftNonempty : left ≠ []) (rightNonempty : right ≠ [])
    (sameTip : tipHashOf P network left = tipHashOf P network right) :
    left.map Block.header = right.map Block.header := by
  induction left using List.reverseRecOn generalizing right with
  | nil => contradiction
  | append_singleton front last ih =>
      obtain rfl | ⟨otherFront, otherLast, rfl⟩ := List.eq_nil_or_concat right
      · contradiction
      rw [List.concat_eq_append] at *
      rw [tipHashOf_concat, tipHashOf_concat] at sameTip
      have sameHeader : last.header = otherLast.header :=
        collisionFree (leftKnown last (by simp)) (rightKnown otherLast (by simp)) sameTip
      have links := leftLinked.last
      have otherLinks := rightLinked.last
      have sameLength : front.length = otherFront.length := by
        rw [← links.height, ← otherLinks.height, sameHeader]
      have sameBefore : tipHashOf P network front = tipHashOf P network otherFront := by
        rw [← links.prevHash, ← otherLinks.prevHash, sameHeader]
      have fronts : front.map Block.header = otherFront.map Block.header := by
        cases front with
        | nil =>
            obtain rfl := List.length_eq_zero_iff.mp sameLength.symm
            rfl
        | cons head tail =>
            have otherNonempty : otherFront ≠ [] := by
              rintro rfl
              simp at sameLength
            exact ih leftLinked.of_append rightLinked.of_append
              (fun block member => leftKnown block (List.mem_append_left _ member))
              (fun block member => rightKnown block (List.mem_append_left _ member))
              (by simp) otherNonempty sameBefore
      simp [fronts, sameHeader]

/-! ## Replay -/

/-- The ledger after a block of the own file. -/
def replayBlock (ledger : LedgerState P) (block : Block) : LedgerState P :=
  (ledger.applyBlockStateOnly block.body block.header.height
    (subsidyAt ledger block.header.height)).2

variable (P) in
/-- The ledger after a list of blocks from genesis. -/
def replay (network : NetworkId) (blocks : List Block) : LedgerState P :=
  blocks.foldl replayBlock (LedgerState.forNetwork P network)

variable (P) in
/-- The replay of a block succeeds on the blocks before it. -/
def ReplaysOn (network : NetworkId) (before : List Block) (block : Block) : Prop :=
  ((replay P network before).applyBlockStateOnly block.body block.header.height
    (subsidyAt (replay P network before) block.header.height)).1 = .ok ()

@[simp] theorem replay_nil (network : NetworkId) :
    replay P network [] = LedgerState.forNetwork P network := rfl

@[simp] theorem replay_concat (network : NetworkId) (blocks : List Block) (block : Block) :
    replay P network (blocks ++ [block]) = replayBlock (replay P network blocks) block := by
  simp [replay]

theorem replayBlock_config (ledger : LedgerState P) (block : Block) :
    (replayBlock ledger block).bindingHeight = ledger.bindingHeight ∧
      (replayBlock ledger block).coinbaseMaturity = ledger.coinbaseMaturity := by
  unfold replayBlock LedgerState.applyBlockStateOnly
  split <;> exact ⟨rfl, rfl⟩

theorem replay_bindingHeight (network : NetworkId) (blocks : List Block) :
    (replay P network blocks).bindingHeight = network.bindingForkHeight := by
  induction blocks using List.reverseRecOn with
  | nil => rfl
  | append_singleton front last ih => rw [replay_concat, (replayBlock_config _ _).1, ih]

theorem replay_tracks (network : NetworkId) (blocks : List Block) :
    (replay P network blocks).utxos.Tracks := by
  induction blocks using List.reverseRecOn with
  | nil => exact UtxoSet.tracks_empty
  | append_singleton front last ih =>
      rw [replay_concat]
      exact LedgerState.applyBlockStateOnly_tracks ih _ _ _

/-! ## How the live ledger relates to the replay -/

/-- A relation between the live ledger and the replay of the chain's blocks, with the
bodies over which a rewind keeps it. -/
structure LiveRelation (P : Primitives) where
  rel : LedgerState P → LedgerState P → Prop
  admits : LedgerState P → BlockBody → Prop
  refl : ∀ state, rel state state
  supply_eq : ∀ {live replayed}, rel live replayed → live.supply = replayed.supply
  binding_eq : ∀ {live replayed}, rel live replayed →
    live.bindingHeight = replayed.bindingHeight
  admits_of_overwritesNothing : ∀ {live : LedgerState P} {body},
    live.OverwritesNothing body → admits live body
  step : ∀ {live replayed next : LedgerState P} {body height reward}, rel live replayed →
    live.applyBlockStateOnly body height reward = (.ok (), next) →
    ∃ replayedNext, replayed.applyBlockStateOnly body height reward = (.ok (), replayedNext) ∧
      rel next replayedNext
  undo : ∀ {live replayed replayedNext : LedgerState P} {body height reward},
    replayed.utxos.Tracks → rel live replayed → admits live body →
    (∀ commit ∈ body.inputCommits, (live.utxos.get commit).isSome) →
    body.inputCommits.Nodup →
    replayed.applyBlockStateOnly body height reward = (.ok (), replayedNext) →
    ∀ {state}, rel state replayedNext → rel (state.rewind (live.undoRecord body)) replayed

/-- The live ledger is the replay.  Rewinding keeps this over bodies that overwrite
nothing. -/
def exactRelation (P : Primitives) : LiveRelation P where
  rel live replayed := live = replayed
  admits live body := live.OverwritesNothing body
  refl _ := rfl
  supply_eq same := by rw [same]
  binding_eq same := by rw [same]
  admits_of_overwritesNothing := id
  step := by
    rintro live _ next body height reward rfl applied
    exact ⟨next, applied, rfl⟩
  undo := by
    rintro live _ replayedNext body height reward tracks rfl overwrites present nodup applied
      _ rfl
    obtain ⟨staged, _, rfl⟩ := LedgerState.applyBlockStateOnly_ok_iff.mp applied
    exact LedgerState.rewind_commit tracks present nodup overwrites height staged.1 staged.2

/-- The live ledger agrees with the replay except that entries may be missing. -/
structure Below (live replayed : LedgerState P) : Prop where
  kernels : live.kernels = replayed.kernels
  supply : live.supply = replayed.supply
  txCount : live.txCount = replayed.txCount
  height : live.height = replayed.height
  binding : live.bindingHeight = replayed.bindingHeight
  present : ∀ commit, (live.utxos.get commit).isSome → (replayed.utxos.get commit).isSome

theorem Below.step {live replayed next : LedgerState P} {body : BlockBody}
    {height reward : UInt64} (below : Below live replayed)
    (applied : live.applyBlockStateOnly body height reward = (.ok (), next)) :
    ∃ replayedNext, replayed.applyBlockStateOnly body height reward = (.ok (), replayedNext) ∧
      Below next replayedNext := by
  obtain ⟨staged, validated, rfl⟩ := LedgerState.applyBlockStateOnly_ok_iff.mp applied
  obtain ⟨outputs, kernels, one, cap, present, nodup, stagedKernels, stagedSupply⟩ :=
    LedgerState.validateStateOnly_eq_ok.mp validated
  have sameActive : replayed.bindingActive height = live.bindingActive height := by
    simp [LedgerState.bindingActive, below.binding]
  have sameKernels : replayed.stageKernelsStateOnly body height =
      live.stageKernelsStateOnly body height := by
    unfold LedgerState.stageKernelsStateOnly
    rw [sameActive, below.kernels]
  have validatedToo : replayed.validateStateOnly body height reward = .ok staged := by
    rw [LedgerState.validateStateOnly_eq_ok, sameKernels, ← below.supply]
    exact ⟨outputs, kernels, one, cap, fun commit member =>
      below.present commit (present commit member), nodup, stagedKernels, stagedSupply⟩
  refine ⟨_, LedgerState.applyBlockStateOnly_ok_iff.mpr ⟨staged, validatedToo, rfl⟩,
    rfl, rfl, ?_, rfl, below.binding, ?_⟩
  · simp [LedgerState.commit, below.txCount]
  · intro commit found
    rw [LedgerState.commit_utxos] at found ⊢
    by_cases created : commit ∈ body.outputCommits
    · exact LedgerState.isSome_get_utxosAfter_of_created height created
    · by_cases spent : commit ∈ body.inputCommits
      · rw [LedgerState.get_utxosAfter_of_spent height spent created] at found
        contradiction
      · rw [LedgerState.get_utxosAfter_of_notMem height spent created] at found ⊢
        exact below.present commit found

theorem Below.undo {live replayed replayedNext : LedgerState P} {body : BlockBody}
    {height reward : UInt64} (below : Below live replayed)
    (present : ∀ commit ∈ body.inputCommits, (live.utxos.get commit).isSome)
    (nodup : body.inputCommits.Nodup)
    (applied : replayed.applyBlockStateOnly body height reward = (.ok (), replayedNext))
    {state : LedgerState P} (after : Below state replayedNext) :
    Below (state.rewind (live.undoRecord body)) replayed := by
  obtain ⟨staged, _, rfl⟩ := LedgerState.applyBlockStateOnly_ok_iff.mp applied
  refine ⟨below.kernels, below.supply, below.txCount, below.height, after.binding, ?_⟩
  intro commit found
  rw [LedgerState.get_rewind_undoRecord present nodup] at found
  split at found
  next spent => exact below.present commit (present commit spent)
  next notSpent =>
      split at found
      · contradiction
      next notCreated =>
          have kept := after.present commit found
          rwa [LedgerState.commit_utxos,
            LedgerState.get_utxosAfter_of_notMem height notSpent notCreated] at kept

/-- The relation that holds whatever bodies a node replays. -/
def belowRelation (P : Primitives) : LiveRelation P where
  rel := Below
  admits _ _ := True
  refl _ := ⟨rfl, rfl, rfl, rfl, rfl, fun _ found => found⟩
  supply_eq below := below.supply
  binding_eq below := below.binding
  admits_of_overwritesNothing _ := trivial
  step := Below.step
  undo _ below _ present nodup applied _ after := below.undo present nodup applied after

/-! ## A chain that describes a block list -/

/-- The redundant records of a chain agree on the blocks `full` from genesis.  The chain
holds the bodies from `skip` on. -/
structure Describes (chain : Chain P) (skip : Nat) (full : List Block) : Prop where
  headers : chain.headers = full.map (CompactHeader.fromBlock P)
  blocks : chain.blocks = full.drop skip
  skip_le : skip ≤ full.length
  first_le : chain.firstHeight ≤ skip
  linked : Linked P chain.network full
  work : chain.totalWork = totalBlockWork full
  fits : full.length < 2 ^ 64
  undos_le : chain.undos.length ≤ maxReorgDepth
  undoWorks : chain.undos.map TipUndo.work <:+ full.map Block.work

section Reading

variable {chain : Chain P} {skip : Nat} {full : List Block}

theorem Describes.firstHeight_eq_zero (describes : Describes chain skip []) :
    chain.firstHeight = 0 := by
  have := describes.first_le
  have := describes.skip_le
  simp_all

theorem Describes.nextHeight_toNat (describes : Describes chain skip full) :
    chain.nextHeight.toNat = full.length := by
  have fits := describes.fits
  unfold Chain.nextHeight Chain.tipHeight
  rw [describes.headers]
  obtain rfl | ⟨front, last, rfl⟩ := List.eq_nil_or_concat full
  · have first := describes.firstHeight_eq_zero
    have blocks := describes.blocks
    simp [blocks, first]
  · rw [List.concat_eq_append] at *
    have height : last.header.height.toNat = front.length := describes.linked.last.height
    have next := Machine.toNat_saturatingAdd last.header.height 1
    simp only [List.length_append, List.length_singleton] at fits
    simp only [List.map_append, List.map_cons, List.map_nil, List.getLast?_concat,
      Option.map_some, Option.some_or, CompactHeader.fromBlock, List.length_append,
      List.length_singleton, next, height, UInt64.toNat_one]
    omega

theorem Describes.tipHash_eq (describes : Describes chain skip full) :
    chain.tipHash = tipHashOf P chain.network full := by
  unfold Chain.tipHash tipHashOf
  rw [describes.headers, describes.blocks]
  obtain rfl | ⟨front, last, rfl⟩ := List.eq_nil_or_concat full
  · simp
  · rw [List.concat_eq_append]
    simp [CompactHeader.fromBlock]

theorem Describes.hashChain_eq (describes : Describes chain skip full) :
    chain.hashChain = full.map (Block.hash P) := by
  unfold Chain.hashChain
  rw [describes.headers, describes.blocks]
  cases full with
  | nil => simp
  | cons head tail => simp [CompactHeader.fromBlock, Function.comp_def]

theorem Describes.tipHeight_toNat (describes : Describes chain skip full) :
    (chain.tipHeight.map UInt64.toNat).getD 0 = full.length - 1 := by
  unfold Chain.tipHeight
  rw [describes.headers, describes.blocks]
  obtain rfl | ⟨front, last, rfl⟩ := List.eq_nil_or_concat full
  · simp
  · rw [List.concat_eq_append]
    have linked := describes.linked
    rw [List.concat_eq_append] at linked
    simp [CompactHeader.fromBlock, linked.last.height]

end Reading

/-- A chain whose ledger follows the replay of the blocks it describes. -/
structure Follows (R : LiveRelation P) (chain : Chain P) (skip : Nat) (full : List Block) :
    Prop where
  describes : Describes chain skip full
  replays : Chained (ReplaysOn P chain.network) full
  live : R.rel chain.ledger (replay P chain.network full)
  tracks : chain.ledger.utxos.Tracks
  covers : UndoLog.Covers LedgerState.rewind
    (fun moment state => R.rel state (replay P chain.network (full.take moment)))
    full.length (chain.undos.map TipUndo.state)

end Nightfall
