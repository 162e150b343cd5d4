import Nightfall.Consensus.Validated

/-!
# A pruned node follows the archive

Two nodes are given the same blocks and branches, and one of them prunes its bodies
whenever it likes.  As long as no branch leaves the history below what the pruned node
still holds, both give the same verdicts and stand on the same chain.
-/

namespace Nightfall

variable {P : Primitives}

/-- What peers bring to a node. -/
inductive Event where
  | applyBlock (block : Block) (nowUnix : UInt64)
  | tryIngestBlocks (blocks : List Block) (nowUnix : UInt64)
  /-- A branch that is verified as a suffix. -/
  | suffixReorg (ancestorHeight : Nat) (suffix : List Block) (nowUnix : UInt64)
  /-- A branch that is offered as a candidate behind the bodies that are held. -/
  | candidateReorg (ancestorHeight : Nat) (suffix : List Block) (nowUnix : UInt64)

/-- What happens to a node: something that peers bring, or a prune. -/
inductive Step where
  | event (event : Event)
  | pruneKeep (keep : Nat)

/-- The blocks that an event brings. -/
def Event.blocks : Event → List Block
  | applyBlock block _ => [block]
  | tryIngestBlocks blocks _ => blocks
  | suffixReorg _ suffix _ => suffix
  | candidateReorg _ suffix _ => suffix

def Step.blocks : Step → List Block
  | .event brought => brought.blocks
  | .pruneKeep _ => []

namespace Chain

/-- Verify a branch as a suffix and splice it, with nothing in between. -/
def suffixReorg (chain : Chain P) (ancestorHeight : Nat) (suffix : List Block)
    (nowUnix : UInt64) : Except ConsensusError Bool × Chain P :=
  match chain.prepareSuffixTrial ancestorHeight with
  | .error error => (.error error, chain)
  | .ok trial =>
      match finishSuffix trial suffix nowUnix with
      | .error error => (.error error, chain)
      | .ok none => (.ok false, chain)
      | .ok (some reorg) => (.ok (chain.spliceSuffix reorg).1, (chain.spliceSuffix reorg).2)

/-- Offer a branch as a whole candidate. -/
def candidateReorg (chain : Chain P) (ancestorHeight : Nat) (suffix : List Block)
    (nowUnix : UInt64) : Except ConsensusError Bool × Chain P :=
  match chain.bodiesThrough ancestorHeight with
  | none => (.error .reorgTooDeep, chain)
  | some bodies => chain.maybeReorgTo (bodies ++ suffix) nowUnix

/-- The verdict on an event, as the number of things taken, and the chain after it. -/
def event (chain : Chain P) : Event → Except ConsensusError Nat × Chain P
  | .applyBlock block nowUnix =>
      ((chain.applyBlock block nowUnix).1.map fun _ => 1, (chain.applyBlock block nowUnix).2)
  | .tryIngestBlocks blocks nowUnix => chain.tryIngestBlocks blocks nowUnix
  | .suffixReorg ancestorHeight suffix nowUnix =>
      ((chain.suffixReorg ancestorHeight suffix nowUnix).1.map Bool.toNat,
        (chain.suffixReorg ancestorHeight suffix nowUnix).2)
  | .candidateReorg ancestorHeight suffix nowUnix =>
      ((chain.candidateReorg ancestorHeight suffix nowUnix).1.map Bool.toNat,
        (chain.candidateReorg ancestorHeight suffix nowUnix).2)

/-- An archive does not prune. -/
def archiveStep (chain : Chain P) : Step → Except ConsensusError Nat × Chain P
  | .event event => chain.event event
  | .pruneKeep _ => (.ok 0, chain)

/-- A prune is no verdict, unless it fails. -/
def prunedStep (chain : Chain P) : Step → Except ConsensusError Nat × Chain P
  | .event event => chain.event event
  | .pruneKeep keep => ((chain.pruneKeep keep).1.map fun _ => 0, (chain.pruneKeep keep).2)

/-- The verdicts of a run, and the chain after it. -/
def outcomes (step : Chain P → Step → Except ConsensusError Nat × Chain P) :
    Chain P → List Step → List (Except ConsensusError Nat) × Chain P
  | chain, [] => ([], chain)
  | chain, first :: rest =>
      ((step chain first).1 :: (outcomes step (step chain first).2 rest).1,
        (outcomes step (step chain first).2 rest).2)

/-- The branch leaves our history above the bodies that are gone. -/
structure Reaches (chain : Chain P) (firstHeight ancestorHeight : Nat) (suffix : List Block) :
    Prop where
  held : firstHeight ≤ ancestorHeight + 1
  ours : ancestorHeight < chain.headers.length
  fits : ancestorHeight + 1 + suffix.length < 2 ^ 64

/-- The branch leaves our history at its own first block, above the pinned heights. -/
structure Leaves (chain : Chain P) (firstHeight ancestorHeight : Nat) (suffix : List Block) :
    Prop extends chain.Reaches firstHeight ancestorHeight suffix where
  apart : ∀ theirs ∈ suffix.head?, chain.hashAt (ancestorHeight + 1) ≠ some (theirs.hash P)
  starts : ∀ theirs ∈ suffix.head?, theirs.header.height.toNat = ancestorHeight + 1
  unpinned : chain.network = .mainnet → highestCheckpointHeight.toNat ≤ ancestorHeight

instance (chain : Chain P) (firstHeight ancestorHeight : Nat) (suffix : List Block) :
    Decidable (chain.Reaches firstHeight ancestorHeight suffix) :=
  decidable_of_iff (firstHeight ≤ ancestorHeight + 1 ∧ ancestorHeight < chain.headers.length ∧
      ancestorHeight + 1 + suffix.length < 2 ^ 64)
    ⟨fun ⟨held, ours, fits⟩ => ⟨held, ours, fits⟩,
      fun reaches => ⟨reaches.held, reaches.ours, reaches.fits⟩⟩

instance (chain : Chain P) (firstHeight ancestorHeight : Nat) (suffix : List Block) :
    Decidable (chain.Leaves firstHeight ancestorHeight suffix) :=
  decidable_of_iff (chain.Reaches firstHeight ancestorHeight suffix ∧
      (∀ theirs ∈ suffix.head?, chain.hashAt (ancestorHeight + 1) ≠ some (theirs.hash P)) ∧
      (∀ theirs ∈ suffix.head?, theirs.header.height.toNat = ancestorHeight + 1) ∧
      (chain.network = .mainnet → highestCheckpointHeight.toNat ≤ ancestorHeight))
    ⟨fun ⟨reaches, apart, starts, unpinned⟩ => ⟨reaches, apart, starts, unpinned⟩,
      fun leaves => ⟨leaves.toReaches, leaves.apart, leaves.starts, leaves.unpinned⟩⟩

theorem Leaves.unpinned_blocks {chain : Chain P} {firstHeight ancestorHeight : Nat}
    {suffix : List Block} (leaves : chain.Leaves firstHeight ancestorHeight suffix)
    (blocks : List Block) : assumeValidTo P chain.network blocks ≤ ancestorHeight + 1 := by
  simp only [assumeValidTo]
  split
  · next pinned => exact Nat.succ_le_succ (leaves.unpinned pinned.1)
  · exact Nat.zero_le _

/-- What the archive is given while the other node holds the bodies from `firstHeight`. -/
def Brings (chain : Chain P) (firstHeight : Nat) : Event → Prop
  | .applyBlock _ _ => chain.headers.length + 1 < 2 ^ 64
  | .tryIngestBlocks blocks _ => chain.headers.length + blocks.length < 2 ^ 64
  | .suffixReorg ancestorHeight suffix _ => chain.Reaches firstHeight ancestorHeight suffix
  | .candidateReorg ancestorHeight suffix _ => chain.Leaves firstHeight ancestorHeight suffix

instance (chain : Chain P) (firstHeight : Nat) :
    (event : Event) → Decidable (chain.Brings firstHeight event)
  | .applyBlock _ _ => inferInstanceAs (Decidable (_ < _))
  | .tryIngestBlocks _ _ => inferInstanceAs (Decidable (_ < _))
  | .suffixReorg _ _ _ => inferInstanceAs (Decidable (Reaches _ _ _ _))
  | .candidateReorg _ _ _ => inferInstanceAs (Decidable (Leaves _ _ _ _))

/-- Every event of the run can be judged by both nodes. -/
def BringsAlong : Chain P → Chain P → List Step → Prop
  | _, _, [] => True
  | archive, pruned, .event event :: rest =>
      archive.Brings pruned.firstHeight event ∧
        BringsAlong (archive.event event).2 (pruned.event event).2 rest
  | archive, pruned, .pruneKeep keep :: rest =>
      BringsAlong archive (pruned.pruneKeep keep).2 rest

instance BringsAlong.decidable :
    (archive pruned : Chain P) → (steps : List Step) → Decidable (BringsAlong archive pruned steps)
  | _, _, [] => isTrue trivial
  | archive, pruned, .event event :: rest =>
      have := BringsAlong.decidable (archive.event event).2 (pruned.event event).2 rest
      inferInstanceAs (Decidable (archive.Brings pruned.firstHeight event ∧
        BringsAlong (archive.event event).2 (pruned.event event).2 rest))
  | archive, pruned, .pruneKeep keep :: rest =>
      BringsAlong.decidable archive (pruned.pruneKeep keep).2 rest

end Chain

@[simp] theorem Chain.replayStart_undos (chain : Chain P) : chain.replayStart.undos = [] := by
  unfold Chain.replayStart
  split <;> rfl

/-- Every block of a replay is remembered, as far as the window goes. -/
theorem Chain.undos_length_of_replayFrom {trustedPrefix index : Nat} {nowUnix : UInt64}
    {chain last : Chain P} {blocks : List Block} (tracked : chain.Tracked)
    (window : chain.undos.length ≤ maxReorgDepth)
    (rebuilt : replayFrom trustedPrefix nowUnix index chain blocks = .ok last) :
    last.undos.length = min maxReorgDepth (chain.undos.length + blocks.length) := by
  induction blocks generalizing chain index with
  | nil =>
      obtain rfl := Except.ok.inj rebuilt
      simp [window]
  | cons block rest ih =>
      have later {next : Chain P} (nextTracked : next.Tracked)
          (grown : next.undos.length = min maxReorgDepth (chain.undos.length + 1))
          (rebuiltRest : replayFrom trustedPrefix nowUnix (index + 1) next rest = .ok last) :
          last.undos.length =
            min maxReorgDepth (chain.undos.length + (block :: rest).length) := by
        rw [ih nextTracked (by omega) rebuiltRest, grown, List.length_cons]
        omega
      simp only [replayFrom] at rebuilt
      split at rebuilt
      · simp only [Guard.bind_eq_ok, Guard.toExcept_eq_ok] at rebuilt
        obtain ⟨next, accepted, rebuiltRest⟩ := rebuilt
        have nextTracked := tracked.applyBlockFromOwnDisk block
        rw [accepted] at nextTracked
        rw [applyBlockFromOwnDisk_eq, settle_eq_ok] at accepted
        obtain ⟨ledger, undo, _, rfl⟩ := accepted
        exact later nextTracked (chain.undos_length_extend _ _ _) rebuiltRest
      · simp only [Guard.bind_eq_ok, Guard.toExcept_eq_ok] at rebuilt
        obtain ⟨_, _, next, accepted, rebuiltRest⟩ := rebuilt
        have nextTracked := tracked.applyBlockInner block nowUnix true
        rw [← Chain.applyBlock, accepted] at nextTracked
        rw [applyBlock_eq tracked.ledger, settle_eq_ok] at accepted
        obtain ⟨ledger, undo, _, rfl⟩ := accepted
        exact later nextTracked (chain.undos_length_extend _ _ _) rebuiltRest

/-! ## One node -/

/-- A chain that stands on known and validated blocks. -/
structure Chain.Stands (known : Set BlockHeader) (network : NetworkId) (chain : Chain P)
    (full : List Block) : Prop where
  holds : chain.Holds (exactRelation P) full
  tracked : chain.Tracked
  sameNetwork : chain.network = network
  headersKnown : ∀ block ∈ full, block.header ∈ known
  accepts : Chain.Accepts P network full

/-- What an event may leave of a chain: how many bodies it holds and can undo. -/
structure Chain.Window (chain : Chain P) (firstHeight undos blocks : Nat) : Prop where
  firstHeight : chain.firstHeight = firstHeight
  undos : chain.undos.length = undos
  blocks : chain.blocks.length = blocks

namespace Chain.Stands

variable {known : Set BlockHeader} {network : NetworkId} {chain next : Chain P}
  {full suffix : List Block} {nowUnix : UInt64} {ancestorHeight : Nat}

theorem blocks_length (stands : chain.Stands known network full) :
    chain.blocks.length = full.length - chain.firstHeight := by
  rw [stands.holds.follows.describes.blocks, List.length_drop]

/-- Validated blocks behind what the chain stands on. -/
theorem grow (stands : chain.Stands known network full) {taken : List Block}
    (offered : ∀ block ∈ taken, block.header ∈ known)
    (reached : Chain.applyAll nowUnix chain taken = .ok next)
    (room : full.length + taken.length < 2 ^ 64) :
    next.Stands known network (full ++ taken.map chain.storedForm) ∧
      next.Window chain.firstHeight (min maxReorgDepth (chain.undos.length + taken.length))
        (chain.blocks.length + taken.length) := by
  have holds := stands.holds.of_applyAll stands.tracked reached room
  have accepts := Accepts.of_applyAll stands.tracked stands.holds.follows
    (stands.sameNetwork.symm ▸ stands.accepts) reached room
  have extended := extends_of_applyAll stands.holds.follows reached
  have base := extended.base
  refine ⟨⟨holds, ⟨holds.follows.tracks, ?_⟩, base.network.trans stands.sameNetwork, ?_,
    stands.sameNetwork ▸ accepts⟩, base.firstHeight, ?_, ?_⟩
  · rw [base.horizon]
    exact stands.tracked.horizon
  · intro block member
    rcases List.mem_append.mp member with old | new
    · exact stands.headersKnown block old
    · obtain ⟨raw, inside, rfl⟩ := List.mem_map.mp new
      rw [storedForm_header]
      exact offered raw inside
  · exact undos_length_of_applyAll stands.tracked stands.holds.follows.describes.undos_le reached
  · rw [extended.blocks, List.length_append, List.length_map]

/-- A trial is prepared exactly inside the undo window. -/
theorem prepareSuffixTrial_cases (stands : chain.Stands known network full)
    (ours : ancestorHeight < full.length) :
    (full.length - (ancestorHeight + 1) ≤ maxReorgDepth ∧
        full.length - (ancestorHeight + 1) ≤ chain.undos.length ∧
        ∃ trial, chain.prepareSuffixTrial ancestorHeight = .ok trial) ∨
      ((full.length - (ancestorHeight + 1) > maxReorgDepth ∨
          full.length - (ancestorHeight + 1) > chain.undos.length) ∧
        chain.prepareSuffixTrial ancestorHeight = .error .reorgTooDeep) := by
  have describes := stands.holds.follows.describes
  have back : full.length - 1 - ancestorHeight = full.length - (ancestorHeight + 1) := by omega
  have above : ¬ancestorHeight > full.length - 1 := by omega
  have below : ¬ancestorHeight ≥ full.length := by omega
  simp only [Chain.prepareSuffixTrial, describes.tipHeight_toNat, describes.headers,
    List.length_map, back, Guard.refuse, above, below, if_false]
  by_cases far : full.length - (ancestorHeight + 1) > maxReorgDepth ∨
      full.length - (ancestorHeight + 1) > chain.undos.length
  · rw [if_pos far]
    exact .inr ⟨far, rfl⟩
  · rw [if_neg far]
    left
    have found : ∃ work, chain.rewoundWork (full.length - (ancestorHeight + 1)) = some work := by
      unfold rewoundWork
      rw [if_neg (by omega)]
      exact ⟨_, rfl⟩
    obtain ⟨work, found⟩ := found
    have light : ¬work > chain.totalWork := by
      obtain ⟨-, rfl⟩ := describes.rewoundWork found
      rw [describes.work]
      have split := totalBlockWork_append
        (full.take (full.length - (full.length - (ancestorHeight + 1))))
        (full.drop (full.length - (full.length - (ancestorHeight + 1))))
      rw [List.take_append_drop] at split
      omega
    rw [found]
    refine ⟨by omega, by omega, ?_⟩
    simp [Guard.need, bind, Except.bind, light]

/-- What becomes of a chain that decides on a branch behind its first `keep` blocks. -/
structure Settles (known : Set BlockHeader) (network : NetworkId) (chain : Chain P)
    (full : List Block) (keep : Nat) (suffix : List Block) (undos : Nat)
    (judged : Except ConsensusError (Option (Chain P)))
    (outcome : Except ConsensusError Bool × Chain P) : Prop where
  rejected : ∀ error, judged = .error error → outcome = (.error error, chain)
  lost : judged = .ok none → outcome = (.ok false, chain)
  adopted : ∀ last, judged = .ok (some last) → outcome.1 = .ok true ∧
    outcome.2.Stands known network (full.take keep ++ suffix.map chain.storedForm) ∧
    outcome.2.Window chain.firstHeight undos (keep - chain.firstHeight + suffix.length)

section Settling

variable {keep undos : Nat}

theorem Settles.of_rejected {error : ConsensusError} :
    Settles known network chain full keep suffix undos (.error error) (.error error, chain) where
  rejected other reason := by rw [Except.error.inj reason]
  lost none := by cases none
  adopted last won := by cases won

theorem Settles.of_lost :
    Settles known network chain full keep suffix undos (.ok none) (.ok false, chain) where
  rejected error reason := by cases reason
  lost _ := rfl
  adopted last won := by cases won

theorem Settles.of_adopted {last : Chain P}
    (stands : next.Stands known network (full.take keep ++ suffix.map chain.storedForm))
    (window : next.Window chain.firstHeight undos (keep - chain.firstHeight + suffix.length)) :
    Settles known network chain full keep suffix undos (.ok (some last)) (.ok true, next) where
  rejected error reason := by cases reason
  lost none := by cases none
  adopted _ _ := ⟨rfl, stands, window⟩

/-- The blocks of a branch are known. -/
theorem headersKnown_branch (stands : chain.Stands known network full)
    (offered : ∀ block ∈ suffix, block.header ∈ known) :
    ∀ block ∈ full.take keep ++ suffix.map chain.storedForm, block.header ∈ known := by
  intro block member
  rcases List.mem_append.mp member with old | new
  · exact stands.headersKnown block (List.mem_of_mem_take old)
  · obtain ⟨raw, inside, rfl⟩ := List.mem_map.mp new
    rw [storedForm_header]
    exact offered raw inside

end Settling

/-- The verdict on a suffix: the contest, inside the window of undos. -/
def suffixVerdict (P : Primitives) (network : NetworkId) (full : List Block) (undos keep : Nat)
    (suffix : List Block) (nowUnix : UInt64) : Except ConsensusError (Option (Chain P)) :=
  if full.length - keep > maxReorgDepth ∨ full.length - keep > undos then .error .reorgTooDeep
  else contest P network full keep suffix nowUnix

theorem undos_of_spliceSuffix {reorg : SuffixReorg P}
    (taken : chain.spliceSuffix reorg = (true, next)) :
    next.undos.length = min maxReorgDepth
      (chain.undos.length - reorg.rewind + reorg.undos.length) := by
  unfold Chain.spliceSuffix at taken
  split at taken
  · cases taken
  split at taken
  · cases taken
  obtain rfl := (Prod.mk.inj taken).2
  simp only [Chain.trimUndos, List.length_drop, List.length_append, List.length_take]
  omega

/-- A branch that is verified as a suffix gets the verdict on a suffix. -/
theorem suffixReorg (stands : chain.Stands known network full)
    (collisionFree : Set.InjOn (BlockHeader.hash P) known)
    (offered : ∀ block ∈ suffix, block.header ∈ known)
    (reaches : chain.Reaches chain.firstHeight ancestorHeight suffix) :
    Settles known network chain full (ancestorHeight + 1) suffix
      (min maxReorgDepth (chain.undos.length - (full.length - (ancestorHeight + 1)) +
        min maxReorgDepth suffix.length))
      (suffixVerdict P network full chain.undos.length (ancestorHeight + 1) suffix nowUnix)
      (chain.suffixReorg ancestorHeight suffix nowUnix) := by
  obtain ⟨held, ours, fits⟩ := reaches
  have holds := stands.holds
  have describes := holds.follows.describes
  rw [describes.headers, List.length_map] at ours
  unfold suffixVerdict
  rcases stands.prepareSuffixTrial_cases ours with ⟨shallow, covered, trial, prepared⟩ |
    ⟨far, refused⟩
  · rw [if_neg (by omega), ← stands.sameNetwork]
    have byTrial := @Holds.finishSuffix_contest _ _ nowUnix _ suffix holds stands.tracked _ _
      prepared fits
    rcases byTrial.cases with ⟨error, judged, finished⟩ | ⟨judged, finished⟩ |
      ⟨last, reorg, judged, finished, splices⟩
    · have outcome : chain.suffixReorg ancestorHeight suffix nowUnix = (.error error, chain) := by
        simp only [Chain.suffixReorg, prepared, finished]
      rw [judged, outcome]
      exact .of_rejected
    · have outcome : chain.suffixReorg ancestorHeight suffix nowUnix = (.ok false, chain) := by
        simp only [Chain.suffixReorg, prepared, finished]
      rw [judged, outcome]
      exact .of_lost
    · obtain ⟨spliced, taken, sameNetwork, firstHeight, headers, -, work, -, bodies⟩ :=
        holds.spliced held ours covered splices
      have outcome : chain.suffixReorg ancestorHeight suffix nowUnix = (.ok true, spliced) := by
        simp only [Chain.suffixReorg, prepared, finished, taken]
      rw [judged, outcome]
      have trialFollows := holds.prepareSuffixTrial stands.tracked stands.headersKnown prepared
      have room : reorg.headers.length < 2 ^ 64 := by
        rw [splices.describes, List.length_map, List.length_append, List.length_take,
          List.length_map]
        omega
      obtain ⟨verified, continues, accepts⟩ := trialFollows.finished_accepts
        (stands.sameNetwork.symm ▸ stands.accepts) offered finished room
      have stored : trial.trial.storedForm = chain.storedForm :=
        storedForm_of_network_eq trialFollows.sameNetwork
      rw [stored] at continues accepts
      have heavier : spliced.totalWork ≠ chain.totalWork := by
        rw [work, ← splices.totalWork, describes.work]
        exact Nat.ne_of_gt splices.heavier
      rcases holds.spliceSuffix collisionFree stands.headersKnown continues
          (NotStale.refl full) with
        same | ⟨replaced, -, -⟩
      · rw [taken] at same
        exact absurd (congrArg Chain.totalWork same) heavier
      · rw [taken] at replaced
        have reorgTracked : reorg.ledger.utxos.Tracks := by
          rw [continues.fields]
          exact continues.follows.tracks
        have tracked := Chain.spliceSuffix_tracked stands.tracked reorgTracked
        rw [taken] at tracked
        refine .of_adopted ⟨replaced, tracked, sameNetwork, stands.headersKnown_branch offered,
          accepts⟩ ⟨firstHeight, ?_, ?_⟩
        · have undos : reorg.undos.length = min maxReorgDepth suffix.length := by
            rw [continues.fields]
            simpa using continues.undos_length
          have rewind : reorg.rewind = full.length - (ancestorHeight + 1) := by
            have := splices.rewind
            omega
          rw [undos_of_spliceSuffix taken, undos, rewind]
        · rw [bodies, List.length_append, List.length_drop, List.length_take, List.length_map]
          omega
  · have outcome : chain.suffixReorg ancestorHeight suffix nowUnix =
        (.error .reorgTooDeep, chain) := by
      simp only [Chain.suffixReorg, refused]
    rw [if_pos far, outcome]
    exact .of_rejected

/-- The bodies up to a height above the horizon. -/
theorem bodiesThrough (stands : chain.Stands known network full)
    (held : chain.firstHeight ≤ ancestorHeight + 1) (ours : ancestorHeight < full.length) :
    chain.bodiesThrough ancestorHeight =
      some ((full.take (ancestorHeight + 1)).drop chain.firstHeight) := by
  have describes := stands.holds.follows.describes
  have count := stands.blocks_length
  unfold Chain.bodiesThrough
  split
  · next archive => rw [describes.blocks, archive, List.drop_zero, List.drop_zero]
  · next pruned =>
      rw [if_neg (by omega)]
      split
      · next before =>
          rw [List.drop_of_length_le (by rw [List.length_take]; omega)]
      · next behind =>
          rw [if_neg (by omega), describes.blocks, List.drop_take]
          congr 2
          omega

/-- What is shared with a candidate that leaves our history is all that it takes on trust. -/
theorem trustedPrefix_eq (stands : chain.Stands known network full)
    (leaves : chain.Leaves chain.firstHeight ancestorHeight suffix) :
    chain.trustedPrefix ((full.take (ancestorHeight + 1)).drop chain.firstHeight ++ suffix) =
      ancestorHeight + 1 - chain.firstHeight := by
  have unpinned := leaves.unpinned_blocks
  obtain ⟨⟨held, ours, -⟩, apart, -, -⟩ := leaves
  have holds := stands.holds
  rw [holds.follows.describes.headers, List.length_map] at ours
  have common := holds.commonPrefix_shared held ours (holds.apart_of_hashAt apart)
  unfold Chain.trustedPrefix prunedBase
  by_cases archive : chain.firstHeight = 0
  · rw [if_pos archive]
    rw [archive, List.drop_zero] at common
    rw [archive]
    simp only [common]
    exact max_eq_left (unpinned _)
  · rw [if_neg archive]
    cases found : chain.horizon with
    | none => exact absurd (holds.archive found) archive
    | some horizon => exact common

/-- The candidate starts at the height of its first body. -/
theorem candidate_starts (stands : chain.Stands known network full)
    (leaves : chain.Leaves chain.firstHeight ancestorHeight suffix) :
    ∀ first ∈ ((full.take (ancestorHeight + 1)).drop chain.firstHeight ++ suffix).head?,
      first.header.height.toNat = chain.firstHeight := by
  obtain ⟨⟨held, ours, -⟩, -, starts, -⟩ := leaves
  have describes := stands.holds.follows.describes
  rw [describes.headers, List.length_map] at ours
  intro first member
  rw [List.head?_append, List.head?_drop, List.getElem?_take] at member
  by_cases own : chain.firstHeight < ancestorHeight + 1
  · rw [if_pos own, List.getElem?_eq_getElem (by omega)] at member
    obtain rfl := Option.some.inj member
    have inside : chain.firstHeight < full.length := by omega
    have linked := describes.linked.at_index (List.getElem?_eq_getElem inside)
    rw [linked.height, List.length_take]
    omega
  · rw [if_neg own, Option.none_or] at member
    rw [starts first member]
    omega

/-- A candidate behind our own bodies takes nothing else on trust. -/
theorem ownHistory (stands : chain.Stands known network full) {keep : Nat}
    (trusted : chain.trustedPrefix ((full.take keep).drop chain.firstHeight ++ suffix) =
      ((full.take keep).drop chain.firstHeight).length) :
    chain.OwnHistory ((full.take keep).drop chain.firstHeight ++ suffix) := by
  have stored : ∀ block ∈ (full.take keep).drop chain.firstHeight,
      chain.storedForm block = block := by
    intro block member
    obtain ⟨before, after, split⟩ :=
      List.append_of_mem (List.mem_of_mem_take (List.mem_of_mem_drop member))
    have validates := stands.accepts before block after split
    have same : chain.storedForm = (standing P network before).storedForm :=
      storedForm_of_network_eq stands.sameNetwork
    exact (congrFun same block).trans validates.1
  unfold OwnHistory
  rw [trusted, List.take_left, List.map_congr_left stored, List.map_id',
    stands.holds.follows.describes.blocks, List.drop_take]
  exact List.take_prefix _ _

/-- A branch that is offered as a candidate gets the verdict of the contest. -/
theorem candidateReorg (stands : chain.Stands known network full)
    (offered : ∀ block ∈ suffix, block.header ∈ known)
    (leaves : chain.Leaves chain.firstHeight ancestorHeight suffix) :
    Settles known network chain full (ancestorHeight + 1) suffix
      (min maxReorgDepth (ancestorHeight + 1 - chain.firstHeight + suffix.length))
      (contest P network full (ancestorHeight + 1) suffix nowUnix)
      (chain.candidateReorg ancestorHeight suffix nowUnix) := by
  have starts := stands.candidate_starts leaves
  have trusted := stands.trustedPrefix_eq leaves
  have unpinned := leaves.unpinned_blocks
  obtain ⟨⟨held, ours, fits⟩, apart, -, -⟩ := leaves
  have holds := stands.holds
  have describes := holds.follows.describes
  rw [describes.headers, List.length_map] at ours
  have offers : chain.candidateReorg ancestorHeight suffix nowUnix = chain.maybeReorgTo
      ((full.take (ancestorHeight + 1)).drop chain.firstHeight ++ suffix) nowUnix := by
    simp only [Chain.candidateReorg, stands.bodiesThrough held ours]
  have accepts := stands.sameNetwork.symm ▸ stands.accepts
  have byCandidate := @Holds.evaluateReorgAt_contest _ _ nowUnix _ suffix holds stands.tracked
    accepts _ held ours _ rfl (holds.apart_of_hashAt apart) starts (unpinned _) fits
  have ownLength : ((full.take (ancestorHeight + 1)).drop chain.firstHeight).length =
      ancestorHeight + 1 - chain.firstHeight := by
    rw [List.length_drop, List.length_take, min_eq_left (Nat.succ_le_of_lt ours)]
  have own := stands.ownHistory (trusted.trans ownLength.symm)
  generalize candidate : (full.take (ancestorHeight + 1)).drop chain.firstHeight ++ suffix =
    blocks at offers byCandidate trusted own
  rw [offers, ← stands.sameNetwork]
  rcases byCandidate.cases with ⟨error, judged, evaluated⟩ | ⟨judged, evaluated⟩ |
    ⟨last, rebuilt, judged, evaluated, -, base, bodies⟩
  · have outcome : chain.maybeReorgTo blocks nowUnix = (.error error, chain) := by
      rw [Chain.maybeReorgTo, evaluated]
    rw [judged, outcome]
    exact .of_rejected
  · have outcome : chain.maybeReorgTo blocks nowUnix = (.ok false, chain) := by
      rw [Chain.maybeReorgTo, evaluated]
    rw [judged, outcome]
    exact .of_lost
  · have heavier := (evaluateReorgAt_eq_some.mp evaluated).2.2.2.2.2.2
    have replayed := replayFrom_of_evaluated evaluated
    have outcome : chain.maybeReorgTo blocks nowUnix = (.ok true, rebuilt) := by
      rw [Chain.maybeReorgTo, evaluated]
      simp only [adoptReorg, if_pos heavier]
    have length := length_of_replayFrom stands.tracked.replayStart replayed
    have start : chain.replayStart.headers.length = chain.firstHeight := by
      rw [holds.replayStart.2.follows.describes.headers, List.length_map, List.length_take,
        min_eq_left describes.skip_le]
    have count : blocks.length = ancestorHeight + 1 - chain.firstHeight + suffix.length := by
      rw [← candidate, List.length_append, ownLength]
    have room : (chain.maybeReorgTo blocks nowUnix).2.headers.length < 2 ^ 64 := by
      rw [outcome, length, start, count]
      omega
    rcases holds.of_maybeReorgTo stands.tracked accepts own room with
      same |
      ⟨network, replaced, grown, -⟩
    · rw [outcome] at same
      exact absurd (congrArg Chain.totalWork same) (Nat.ne_of_gt heavier)
    · have tracked := stands.tracked.maybeReorgTo blocks nowUnix
      have behind : blocks.drop (ancestorHeight + 1 - chain.firstHeight) = suffix := by
        rw [← candidate, List.drop_left' ownLength]
      have upTo : chain.firstHeight + (ancestorHeight + 1 - chain.firstHeight) =
          ancestorHeight + 1 := by
        omega
      rw [outcome] at tracked network
      rw [outcome, trusted, behind, upTo] at replaced
      rw [trusted, behind, upTo] at grown
      rw [judged, outcome]
      refine .of_adopted ⟨replaced, tracked, network,
        stands.headersKnown_branch offered, grown⟩ ⟨?_, ?_, ?_⟩
      · exact base.firstHeight.trans holds.replayStart.1
      · have fresh : chain.replayStart.undos.length = 0 := by
          rw [replayStart_undos, List.length_nil]
        rw [undos_length_of_replayFrom stands.tracked.replayStart (by omega) replayed, fresh,
          Nat.zero_add, count]
      · rw [bodies, List.length_append, ownLength, List.length_map]

end Chain.Stands

/-! ## Two nodes -/

/-- Alike chains ingest the same blocks. -/
theorem Chain.Alike.ingestFrom {left right : Chain P} {nowUnix : UInt64} (alike : left.Alike right)
    (leftTracked : left.Tracked) (rightTracked : right.Tracked) (count : Nat)
    (blocks : List Block) :
    (Chain.ingestFrom nowUnix count left blocks).1 =
        (Chain.ingestFrom nowUnix count right blocks).1 ∧
      ∃ taken, taken <+: blocks ∧
        Chain.applyAll nowUnix left taken = .ok (Chain.ingestFrom nowUnix count left blocks).2 ∧
        Chain.applyAll nowUnix right taken =
          .ok (Chain.ingestFrom nowUnix count right blocks).2 := by
  induction blocks generalizing left right count with
  | nil => exact ⟨rfl, [], List.prefix_rfl, rfl, rfl⟩
  | cons block rest ih =>
      have leftNext := leftTracked.applyBlockInner block nowUnix true
      have rightNext := rightTracked.applyBlockInner block nowUnix true
      rw [← Chain.applyBlock] at leftNext rightNext
      have leftJudged := applyBlock_eq leftTracked.ledger block nowUnix
      have rightJudged := applyBlock_eq rightTracked.ledger block nowUnix
      rw [alike.storedForm, alike.verdict] at leftJudged
      simp only [Chain.ingestFrom]
      cases verdict : right.verdict (right.storedForm block) nowUnix true with
      | error error =>
          rw [verdict] at leftJudged rightJudged
          rw [leftJudged, rightJudged, settle, settle]
          refine ⟨?_, [], List.nil_prefix, ?_, ?_⟩
          · cases error <;> first | rfl | (simp only []; split <;> rfl)
          · cases error <;> first | rfl | (simp only []; split <;> rfl)
          · cases error <;> first | rfl | (simp only []; split <;> rfl)
      | ok accepted =>
          rw [verdict] at leftJudged rightJudged
          rw [leftJudged] at leftNext ⊢
          rw [rightJudged] at rightNext ⊢
          have extended := alike.extend (right.storedForm block) accepted.1 accepted.2
          obtain ⟨same, taken, inside, leftReached, rightReached⟩ :=
            ih extended leftNext rightNext (count + 1)
          refine ⟨same, block :: taken, (List.prefix_cons_inj block).mpr inside, ?_, ?_⟩
          · rw [Chain.applyAll, leftJudged]
            exact leftReached
          · rw [Chain.applyAll, rightJudged]
            exact rightReached

namespace Chain

/-- An archive and a pruned node on the same validated blocks.  Of what it holds the pruned
node can undo as much as the archive. -/
structure Twins (known : Set BlockHeader) (network : NetworkId) (archive pruned : Chain P)
    (full : List Block) : Prop where
  first : archive.Stands known network full
  second : pruned.Stands known network full
  whole : archive.firstHeight = 0
  undos : min archive.undos.length pruned.blocks.length =
    min pruned.undos.length pruned.blocks.length

namespace Twins

variable {known : Set BlockHeader} {network : NetworkId} {archive pruned : Chain P}
  {full : List Block} {nowUnix : UInt64}

theorem alike (twins : Twins known network archive pruned full) : archive.Alike pruned := by
  have left := alike_of_follows twins.first.holds.follows
  have right := alike_of_follows twins.second.holds.follows
  rw [twins.first.sameNetwork] at left
  rw [twins.second.sameNetwork] at right
  exact left.trans right.symm

theorem hashAt (twins : Twins known network archive pruned full) (height : Nat) :
    pruned.hashAt height = archive.hashAt height := by
  rw [twins.second.holds.follows.describes.hashAt_eq,
    twins.first.holds.follows.describes.hashAt_eq]

/-- Both take the same validated blocks. -/
theorem grow (twins : Twins known network archive pruned full) {taken : List Block}
    {left right : Chain P} (offered : ∀ block ∈ taken, block.header ∈ known)
    (leftReached : applyAll nowUnix archive taken = .ok left)
    (rightReached : applyAll nowUnix pruned taken = .ok right)
    (room : archive.headers.length + taken.length < 2 ^ 64) :
    ∃ nextFull, Twins known network left right nextFull := by
  rw [twins.first.holds.follows.describes.headers, List.length_map] at room
  obtain ⟨leftStands, leftWindow⟩ := twins.first.grow offered leftReached room
  obtain ⟨rightStands, rightWindow⟩ := twins.second.grow offered rightReached room
  rw [twins.alike.storedForm] at leftStands
  refine ⟨_, leftStands, rightStands, leftWindow.firstHeight.trans twins.whole, ?_⟩
  rw [leftWindow.undos, rightWindow.undos, rightWindow.blocks]
  have := twins.undos
  omega

/-- Both settle on the same branch. -/
theorem settle (twins : Twins known network archive pruned full) {keep leftUndos rightUndos : Nat}
    {suffix : List Block} {judged : Except ConsensusError (Option (Chain P))}
    {left right : Except ConsensusError Bool × Chain P}
    (leftSettles : Stands.Settles known network archive full keep suffix leftUndos judged left)
    (rightSettles : Stands.Settles known network pruned full keep suffix rightUndos judged right)
    (undos : min leftUndos (keep - pruned.firstHeight + suffix.length) =
      min rightUndos (keep - pruned.firstHeight + suffix.length)) :
    left.1 = right.1 ∧ ∃ nextFull, Twins known network left.2 right.2 nextFull := by
  cases judged with
  | error error =>
      rw [leftSettles.rejected error rfl, rightSettles.rejected error rfl]
      exact ⟨rfl, full, twins⟩
  | ok decided =>
      cases decided with
      | none =>
          rw [leftSettles.lost rfl, rightSettles.lost rfl]
          exact ⟨rfl, full, twins⟩
      | some last =>
          obtain ⟨leftWon, leftStands, leftWindow⟩ := leftSettles.adopted last rfl
          obtain ⟨rightWon, rightStands, rightWindow⟩ := rightSettles.adopted last rfl
          rw [twins.alike.storedForm] at leftStands
          refine ⟨leftWon.trans rightWon.symm, _, leftStands, rightStands,
            leftWindow.firstHeight.trans twins.whole, ?_⟩
          rw [leftWindow.undos, rightWindow.undos, rightWindow.blocks]
          exact undos

/-- The same event gets the same verdict and leaves both on the same chain. -/
theorem event (collisionFree : Set.InjOn (BlockHeader.hash P) known)
    (twins : Twins known network archive pruned full) {event : Event}
    (offered : ∀ block ∈ event.blocks, block.header ∈ known)
    (brings : archive.Brings pruned.firstHeight event) :
    (archive.event event).1 = (pruned.event event).1 ∧
      ∃ nextFull, Twins known network (archive.event event).2 (pruned.event event).2 nextFull := by
  have headers := twins.alike.headers
  have count := twins.second.blocks_length
  have window := twins.undos
  have whole := twins.whole
  cases event with
  | applyBlock block nowUnix =>
      have leftJudged := applyBlock_eq twins.first.tracked.ledger block nowUnix
      have rightJudged := applyBlock_eq twins.second.tracked.ledger block nowUnix
      rw [twins.alike.storedForm, twins.alike.verdict] at leftJudged
      simp only [Chain.event]
      cases verdict : pruned.verdict (pruned.storedForm block) nowUnix true with
      | error error =>
          rw [verdict] at leftJudged rightJudged
          rw [leftJudged, rightJudged]
          exact ⟨rfl, full, twins⟩
      | ok accepted =>
          rw [verdict] at leftJudged rightJudged
          have leftReached : applyAll nowUnix archive [block] =
              .ok (archive.applyBlock block nowUnix).2 := by
            rw [leftJudged, applyAll, leftJudged]
            rfl
          have rightReached : applyAll nowUnix pruned [block] =
              .ok (pruned.applyBlock block nowUnix).2 := by
            rw [rightJudged, applyAll, rightJudged]
            rfl
          refine ⟨?_, twins.grow offered leftReached rightReached brings⟩
          rw [leftJudged, rightJudged]
          rfl
  | tryIngestBlocks blocks nowUnix =>
      obtain ⟨same, taken, inside, leftReached, rightReached⟩ :=
        @Alike.ingestFrom _ _ _ nowUnix twins.alike twins.first.tracked twins.second.tracked 0
          blocks
      have shorter := inside.length_le
      have room : archive.headers.length + blocks.length < 2 ^ 64 := brings
      exact ⟨same, twins.grow (fun block member => offered block (inside.subset member))
        leftReached rightReached (by omega)⟩
  | suffixReorg ancestorHeight suffix nowUnix =>
      have known : ∀ block ∈ suffix, block.header ∈ known := offered
      have reaches : archive.Reaches pruned.firstHeight ancestorHeight suffix := brings
      obtain ⟨held, ours, fits⟩ := reaches
      have left := @Stands.suffixReorg _ _ _ _ _ _ nowUnix _ twins.first collisionFree known
        ⟨by omega, ours, fits⟩
      have right := @Stands.suffixReorg _ _ _ _ _ _ nowUnix _ twins.second collisionFree known
        ⟨held, headers ▸ ours, fits⟩
      rw [twins.first.holds.follows.describes.headers, List.length_map] at ours
      have sameWindow : Stands.suffixVerdict P network full archive.undos.length
          (ancestorHeight + 1) suffix nowUnix =
            Stands.suffixVerdict P network full pruned.undos.length (ancestorHeight + 1) suffix
              nowUnix := by
        unfold Stands.suffixVerdict
        congr 1
        apply propext
        omega
      rw [sameWindow] at left
      obtain ⟨same, next⟩ := twins.settle left right (by omega)
      refine ⟨?_, next⟩
      simp only [Chain.event, same]
  | candidateReorg ancestorHeight suffix nowUnix =>
      have known : ∀ block ∈ suffix, block.header ∈ known := offered
      have leaves : archive.Leaves pruned.firstHeight ancestorHeight suffix := brings
      obtain ⟨⟨held, ours, fits⟩, apart, starts, unpinned⟩ := leaves
      have left := @Stands.candidateReorg _ _ _ _ _ _ nowUnix _ twins.first known
        ⟨⟨by omega, ours, fits⟩, apart, starts, unpinned⟩
      have right := @Stands.candidateReorg _ _ _ _ _ _ nowUnix _ twins.second known
        ⟨⟨held, headers ▸ ours, fits⟩, by rwa [twins.hashAt], starts,
          twins.alike.network ▸ unpinned⟩
      obtain ⟨same, next⟩ := twins.settle left right (by omega)
      refine ⟨?_, next⟩
      simp only [Chain.event, same]

theorem pruneKeep_undos (chain : Chain P) (keep : Nat) :
    (chain.pruneKeep keep).2.undos = chain.undos ∧
      (chain.pruneKeep keep).2.blocks.length ≤ chain.blocks.length := by
  simp only [Chain.pruneKeep]
  split
  · exact ⟨rfl, le_rfl⟩
  · split <;> simp

/-- A prune never fails, and what is held can be undone as before. -/
theorem prune (twins : Twins known network archive pruned full) (keep : Nat) :
    (∃ count, (pruned.pruneKeep keep).1 = .ok count) ∧
      Twins known network archive (pruned.pruneKeep keep).2 full := by
  obtain ⟨⟨count, done⟩, holds⟩ := twins.second.holds.pruneKeep keep
  obtain ⟨undos, fewer⟩ := pruneKeep_undos pruned keep
  have window := twins.undos
  refine ⟨⟨count, done⟩, twins.first, ?_, twins.whole, ?_⟩
  · exact {
      holds := holds
      tracked := twins.second.tracked.pruneKeep keep
      sameNetwork := (pruneKeep_sameNetwork pruned keep).trans twins.second.sameNetwork
      headersKnown := twins.second.headersKnown
      accepts := twins.second.accepts }
  · rw [undos]
    omega

/-- Over a run both give the same verdicts. -/
theorem run (collisionFree : Set.InjOn (BlockHeader.hash P) known)
    (twins : Twins known network archive pruned full) {steps : List Step}
    (offered : ∀ step ∈ steps, ∀ block ∈ step.blocks, block.header ∈ known)
    (brings : BringsAlong archive pruned steps) :
    (outcomes archiveStep archive steps).1 = (outcomes prunedStep pruned steps).1 ∧
      ∃ nextFull, Twins known network (outcomes archiveStep archive steps).2
        (outcomes prunedStep pruned steps).2 nextFull := by
  induction steps generalizing archive pruned full with
  | nil => exact ⟨rfl, full, twins⟩
  | cons step rest ih =>
      have later : ∀ step ∈ rest, ∀ block ∈ step.blocks, block.header ∈ known :=
        fun step member => offered step (List.mem_cons_of_mem _ member)
      simp only [outcomes]
      cases step with
      | event event =>
          obtain ⟨here, along⟩ := brings
          obtain ⟨same, nextFull, next⟩ :=
            twins.event collisionFree (offered _ List.mem_cons_self) here
          obtain ⟨sameRest, lastFull, last⟩ := ih next later along
          exact ⟨congrArg₂ _ same sameRest, lastFull, last⟩
      | pruneKeep keep =>
          obtain ⟨⟨count, done⟩, next⟩ := twins.prune keep
          obtain ⟨sameRest, lastFull, last⟩ := ih next later brings
          refine ⟨congrArg₂ _ ?_ sameRest, lastFull, last⟩
          simp only [archiveStep, prunedStep, done]
          rfl

end Twins

/-- Two nodes that differ in the bodies they hold, and in nothing else that matters. -/
structure FollowedBy (archive pruned : Chain P) : Prop where
  headers : pruned.headers = archive.headers
  ledger : pruned.ledger = archive.ledger
  totalWork : pruned.totalWork = archive.totalWork
  tipHash : pruned.tipHash = archive.tipHash
  archived : archive.headers = archive.blocks.map (CompactHeader.fromBlock P)
  bodies : pruned.blocks = archive.blocks.drop pruned.firstHeight
  held : pruned.firstHeight ≤ archive.blocks.length
  horizon : ∀ horizon, pruned.horizon = some horizon →
    horizon = replay P archive.network (archive.blocks.take pruned.firstHeight) ∧
      pruned.horizonWork = totalBlockWork (archive.blocks.take pruned.firstHeight)

theorem Twins.followedBy {known : Set BlockHeader} {network : NetworkId}
    {archive pruned : Chain P} {full : List Block}
    (twins : Twins known network archive pruned full) : archive.FollowedBy pruned := by
  have alike := twins.alike.symm
  have describes := twins.first.holds.follows.describes
  have blocks : archive.blocks = full := by
    rw [describes.blocks, twins.whole, List.drop_zero]
  refine ⟨alike.headers, alike.ledger, alike.totalWork, alike.tipHash, ?_, ?_, ?_, ?_⟩
  · rw [describes.headers, blocks]
  · rw [twins.second.holds.follows.describes.blocks, blocks]
  · rw [blocks]
    exact twins.second.holds.follows.describes.skip_le
  · rw [blocks, ← alike.network]
    exact twins.second.holds.horizon

end Chain

/-! ## Runs -/

/-- The byte strings that Blake3 reads to hash the headers of a run. -/
def Step.preimages (P : Primitives) (steps : List Step) : List Bytes :=
  steps.flatMap fun step => step.blocks.flatMap fun block => block.header.preimages P

/-- What two nodes are given: hashes of the headers do not collide and both can judge every
event. -/
structure Judged (P : Primitives) (network : NetworkId) (steps : List Step) : Prop where
  collisionFree : ∀ left ∈ Step.preimages P steps, ∀ right ∈ Step.preimages P steps,
    P.blake3 left = P.blake3 right → left = right
  brings : Chain.BringsAlong (Chain.newFair P network) (Chain.newFair P network) steps

instance (P : Primitives) (network : NetworkId) (steps : List Step) :
    Decidable (Judged P network steps) :=
  decidable_of_iff ((∀ left ∈ Step.preimages P steps, ∀ right ∈ Step.preimages P steps,
        P.blake3 left = P.blake3 right → left = right) ∧
      Chain.BringsAlong (Chain.newFair P network) (Chain.newFair P network) steps)
    ⟨fun ⟨collisionFree, brings⟩ => ⟨collisionFree, brings⟩,
      fun judged => ⟨judged.collisionFree, judged.brings⟩⟩

namespace Sample

/-- Our first two blocks, a prune, the heavier branch as a suffix, and our own branch again
as a candidate. -/
def prunedSteps : List Step :=
  [.event (.applyBlock block0 now), .event (.tryIngestBlocks [block1] now), .pruneKeep 1,
    .event (.suffixReorg 0 [rival1, rival2] now), .pruneKeep 1,
    .event (.candidateReorg 1 [block2] now)]

end Sample

end Nightfall
