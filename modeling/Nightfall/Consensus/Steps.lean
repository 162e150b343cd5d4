import Nightfall.Consensus.Run

/-!
# Every operation keeps the invariant

Ingestion and pruning continue the described list, a candidate reorg replaces it above
the horizon, and a suffix reorg replaces it above the ancestor it was prepared at.  A
splice is judged by the tip hash alone; as long as header hashes do not collide, an
equal tip means that the list is still the one the suffix was prepared on.
-/

namespace Nightfall

variable {P : Primitives}

/-! ## Ingestion -/

theorem Chain.headers_length_le_ingestFrom {nowUnix : UInt64} {chain : Chain P}
    (tracked : chain.Tracked) (count : Nat) (blocks : List Block) :
    chain.headers.length ≤ (Chain.ingestFrom nowUnix count chain blocks).2.headers.length := by
  let holds (current : Chain P) : Prop :=
    current.Tracked ∧ chain.headers.length ≤ current.headers.length
  have start : holds chain := ⟨tracked, le_rfl⟩
  have kept (current : Chain P) (block : Block) (longer : holds current) :
      holds (current.applyBlock block nowUnix).2 := by
    refine ⟨longer.1.applyBlockInner block nowUnix true, ?_⟩
    rw [Chain.applyBlock_eq longer.1.ledger]
    cases current.verdict (current.storedForm block) nowUnix true with
    | error error => exact longer.2
    | ok accepted =>
        have before := longer.2
        simp only [Chain.settle, Chain.extend_headers, List.length_append]
        omega
  exact (Chain.ingestFrom_induction kept start count blocks).2

section Chains

variable {R : LiveRelation P} {chain : Chain P} {full : List Block}

/-- Ingestion appends some of the offered blocks in their stored form. -/
theorem Chain.Holds.ingestFrom {nowUnix : UInt64} (holds : chain.Holds R full)
    (tracked : chain.Tracked) (count : Nat) (blocks : List Block)
    (fits : (Chain.ingestFrom nowUnix count chain blocks).2.headers.length < 2 ^ 64) :
    ∃ more, (Chain.ingestFrom nowUnix count chain blocks).2.Holds R (full ++ more) ∧
      ∀ block ∈ more, ∃ offered ∈ blocks, block.header = offered.header := by
  induction blocks generalizing chain full count with
  | nil => exact ⟨[], by simpa [Chain.ingestFrom] using holds, by simp⟩
  | cons block rest ih =>
      have nextTracked := tracked.applyBlockInner block nowUnix true
      simp only [Chain.ingestFrom] at fits ⊢
      have unchanged {result : Except ConsensusError Unit} {left : Chain P}
          (applied : chain.applyBlock block nowUnix = (result, left))
          (failed : result ≠ .ok ()) : left = chain := by
        rw [Chain.applyBlock_eq tracked.ledger] at applied
        cases judged : chain.verdict (chain.storedForm block) nowUnix true with
        | error error =>
            rw [judged] at applied
            exact (Prod.mk.inj applied).2.symm
        | ok accepted =>
            rw [judged] at applied
            exact absurd (Prod.mk.inj applied).1.symm failed
      have stays : ∃ more, chain.Holds R (full ++ more) ∧
          ∀ other ∈ more, ∃ offered ∈ block :: rest, other.header = offered.header :=
        ⟨[], by simpa using holds, by simp⟩
      cases applied : chain.applyBlock block nowUnix with
      | mk result next =>
          rw [← Chain.applyBlock, applied] at nextTracked
          cases result with
          | ok done =>
              simp only [applied] at fits ⊢
              have nextFits := lt_of_le_of_lt
                (Chain.headers_length_le_ingestFrom nextTracked (count + 1) rest) fits
              have sameNext : (chain.applyBlockInner block nowUnix true).2 = next := by
                rw [← Chain.applyBlock, applied]
              rcases holds.applyBlockInner block nowUnix true (by rwa [sameNext]) with
                same | grown
              · -- An accepted block makes the header list longer.
                have longer := (Chain.applyBlockInner_network tracked.ledger applied).2
                rw [sameNext] at same
                rw [same] at longer
                omega
              · rw [sameNext] at grown
                obtain ⟨more, after, offered⟩ := ih grown nextTracked (count + 1) fits
                refine ⟨chain.storedForm block :: more, by simpa using after, ?_⟩
                intro other member
                rcases List.mem_cons.mp member with rfl | later
                · exact ⟨block, List.mem_cons_self, chain.storedForm_header block⟩
                · obtain ⟨origin, inRest, header⟩ := offered other later
                  exact ⟨origin, List.mem_cons_of_mem _ inRest, header⟩
          | error error =>
              have left := unchanged applied (by simp)
              subst left
              cases error <;> first
                | exact stays
                | (simp only
                   split <;> exact stays)

/-! ## Candidate reorgs -/

/-- A replay leaves the network and everything below the first body alone. -/
structure Chain.SameBase (start chain : Chain P) : Prop where
  network : chain.network = start.network
  firstHeight : chain.firstHeight = start.firstHeight
  horizon : chain.horizon = start.horizon
  horizonWork : chain.horizonWork = start.horizonWork

theorem Chain.SameBase.settle {start chain next : Chain P} (same : Chain.SameBase start chain)
    {block : Block} {result : Except ConsensusError (LedgerState P × StateUndo)}
    (settled : chain.settle block result = (.ok (), next)) : Chain.SameBase start next := by
  obtain ⟨ledger, undo, _, rfl⟩ := Chain.settle_eq_ok.mp settled
  exact ⟨same.network, same.firstHeight, same.horizon, same.horizonWork⟩

theorem Chain.sameBase_replayFrom {trustedPrefix index : Nat} {nowUnix : UInt64}
    {start last : Chain P} {blocks : List Block} (tracked : start.Tracked)
    (rebuilt : Chain.replayFrom trustedPrefix nowUnix index start blocks = .ok last) :
    last.Tracked ∧ Chain.SameBase start last := by
  let holds (current : Chain P) : Prop := current.Tracked ∧ Chain.SameBase start current
  have initially : holds start := ⟨tracked, rfl, rfl, rfl, rfl⟩
  refine Chain.replayFrom_induction ?_ ?_ initially rebuilt
  · rintro current block next ⟨currentTracked, same⟩ accepted
    have after := currentTracked.applyBlockFromOwnDisk block
    rw [accepted] at after
    rw [Chain.applyBlockFromOwnDisk_eq] at accepted
    exact ⟨after, same.settle accepted⟩
  · rintro current block next ⟨currentTracked, same⟩ accepted
    have after := currentTracked.applyBlockInner block nowUnix true
    rw [← Chain.applyBlock, accepted] at after
    rw [Chain.applyBlock_eq currentTracked.ledger] at accepted
    exact ⟨after, same.settle accepted⟩

/-- The candidate of a reorg describes the blocks below the horizon and the offered ones. -/
theorem Chain.Holds.evaluated {blocks : List Block} {nowUnix : UInt64}
    (holds : chain.Holds R full) (tracked : chain.Tracked)
    (admits : (Op.maybeReorgTo blocks nowUnix).TrustedBy
      (fun current block => R.admits current.ledger (current.storedForm block).body) chain)
    {candidate : Chain P}
    (won : Chain.evaluateReorgAt chain.network chain.totalWork chain.hashChain chain.prunedBase
      blocks nowUnix = .ok (some candidate))
    (fits : candidate.headers.length < 2 ^ 64) :
    candidate.Holds R (full.take chain.firstHeight ++ blocks.map chain.storedForm) ∧
      candidate.network = chain.network ∧ chain.totalWork < candidate.totalWork := by
  have heavier := (Chain.evaluateReorgAt_eq_some.mp won).2.2.2.2.2.2
  obtain ⟨firstEq, start⟩ := holds.replayStart
  have startTracked := tracked.replayStart
  have replayed := Chain.replayFrom_of_evaluated won
  have length := Chain.length_of_replayFrom startTracked replayed
  obtain ⟨_, same⟩ := Chain.sameBase_replayFrom startTracked replayed
  obtain ⟨follows, network⟩ := start.follows.replayFrom startTracked admits replayed (by
    rw [length, start.follows.describes.headers, List.length_map] at fits
    exact fits)
  have first : candidate.firstHeight = chain.firstHeight := same.firstHeight.trans firstEq
  have bound := holds.follows.describes.skip_le
  have startLength : (full.take chain.firstHeight).length = chain.firstHeight := by
    simp [bound]
  rw [Chain.storedForm_of_network_eq chain.replayStart_network, firstEq, ← first] at follows
  rw [Chain.replayStart_network] at network
  refine ⟨⟨by rwa [first] at follows ⊢, ?_, ?_⟩, network, heavier⟩
  · intro none
    rw [same.horizon] at none
    exact same.firstHeight.trans (start.archive none)
  · intro horizon present
    have known := start.horizon horizon (same.horizon ▸ present)
    rw [firstEq, List.take_take, min_self, Chain.replayStart_network] at known
    rw [same.horizonWork, network, first, List.take_append_of_le_length startLength.ge,
      List.take_of_length_le startLength.le]
    exact known

/-- A reorg to a candidate list, adopted or not. -/
theorem Chain.Holds.maybeReorgTo {blocks : List Block} {nowUnix : UInt64}
    (holds : chain.Holds R full) (tracked : chain.Tracked)
    (admits : (Op.maybeReorgTo blocks nowUnix).TrustedBy
      (fun current block => R.admits current.ledger (current.storedForm block).body) chain)
    (fits : (chain.maybeReorgTo blocks nowUnix).2.headers.length < 2 ^ 64) :
    (chain.maybeReorgTo blocks nowUnix).2 = chain ∨
      ((chain.maybeReorgTo blocks nowUnix).2.Holds R
          (full.take chain.firstHeight ++ blocks.map chain.storedForm) ∧
        (chain.maybeReorgTo blocks nowUnix).2.network = chain.network ∧
        chain.totalWork < (chain.maybeReorgTo blocks nowUnix).2.totalWork) := by
  unfold Chain.maybeReorgTo at fits ⊢
  split at fits
  next error failed => exact Or.inl rfl
  next lost => exact Or.inl rfl
  next candidate won =>
      have heavier := (Chain.evaluateReorgAt_eq_some.mp won).2.2.2.2.2.2
      have adopted : chain.adoptReorg candidate = (true, candidate) := by
        simp [Chain.adoptReorg, heavier]
      simp only [adopted] at fits ⊢
      exact Or.inr (holds.evaluated tracked admits won fits)

/-! ## Suffix reorgs -/

/-- The ledger after undoing the newest `count` blocks. -/
def Chain.rewound (chain : Chain P) (count : Nat) : LedgerState P :=
  (chain.undos.reverse.take count).foldl (fun ledger undo => ledger.rewind undo.state)
    chain.ledger

theorem Chain.rewound_eq_rewindAll (chain : Chain P) (count : Nat) :
    chain.rewound count = UndoLog.rewindAll LedgerState.rewind
      ((chain.undos.map TipUndo.state).drop (chain.undos.length - count)) chain.ledger := by
  rw [← UndoLog.foldl_reverse_eq_rewindAll, ← List.map_drop, ← List.map_reverse, List.foldl_map,
    Chain.rewound, List.take_reverse]

/-- Rewinding inside the window leads to the replay of the blocks before it. -/
theorem Follows.rewound {skip : Nat} (follows : Follows R chain skip full) {count : Nat}
    (inside : count ≤ chain.undos.length) :
    R.rel (chain.rewound count)
      (replay P chain.network (full.take (full.length - count))) := by
  have start : R.rel chain.ledger (replay P chain.network (full.take full.length)) := by
    rw [List.take_length]
    exact follows.live
  have back := follows.covers.rewind (by simpa using inside) start
  rwa [List.length_map, ← Chain.rewound_eq_rewindAll] at back

/-- The works of the newest records are the works of the newest blocks. -/
theorem Describes.rewoundWork {skip : Nat} (describes : Describes chain skip full)
    {count work : Nat} (found : chain.rewoundWork count = some work) :
    count ≤ chain.undos.length ∧ work = totalBlockWork (full.drop (full.length - count)) := by
  unfold Chain.rewoundWork at found
  split at found
  · contradiction
  next inside =>
      obtain rfl := Option.some.inj found
      have inside := Nat.not_lt.mp inside
      refine ⟨inside, ?_⟩
      obtain ⟨older, split⟩ := describes.undoWorks
      have total : full.length = older.length + chain.undos.length := by
        have := congrArg List.length split
        simpa [eq_comm] using this
      rw [List.take_reverse, List.map_reverse, List.sum_reverse, totalBlockWork, List.map_drop,
        List.map_drop, ← split, List.drop_append]
      have past : full.length - count - older.length = chain.undos.length - count := by omega
      have front : older.drop (full.length - count) = [] := List.drop_eq_nil_of_le (by omega)
      rw [front, past, List.nil_append]

/-- A trial stands on the replay of the blocks up to its ancestor. -/
theorem Chain.Holds.prepareSuffixTrial {known : Set BlockHeader} {ancestorHeight : Nat}
    {trial : SuffixTrial P} (holds : chain.Holds R full) (tracked : chain.Tracked)
    (headersKnown : ∀ block ∈ full, block.header ∈ known)
    (prepared : chain.prepareSuffixTrial ancestorHeight = .ok trial) :
    TrialFollows R known chain.network trial full (ancestorHeight + 1) := by
  have trialTracked := Chain.prepareSuffixTrial_tracks tracked.ledger prepared
  have describes := holds.follows.describes
  have fits := describes.fits
  simp only [Chain.prepareSuffixTrial, Guard.bind_eq_ok, Guard.refuse_eq_ok, Guard.need_eq_ok,
    Except.ok.injEq, describes.tipHeight_toNat, describes.headers, List.length_map] at prepared
  obtain ⟨_, notAbove, _, shallow, _, below, rewindWork, found, _, _, rfl⟩ := prepared
  obtain ⟨inside, rfl⟩ := describes.rewoundWork found
  have keep : full.length - (full.length - 1 - ancestorHeight) = ancestorHeight + 1 := by omega
  have rewoundTo := holds.follows.rewound inside
  rw [keep] at rewoundTo
  exact {
    linked := describes.linked
    headersKnown := headersKnown
    basedOn := describes.tipHash_eq
    ourWork := describes.work
    length := by
      show full.length = ancestorHeight + 1 + (full.length - 1 - ancestorHeight)
      omega
    keep_pos := Nat.succ_pos _
    follows := {
      describes := {
        headers := by simp [List.map_take]
        blocks := by simp [Chain.newFair]
        skip_le := by simp; omega
        first_le := Nat.zero_le _
        linked := describes.linked.take _
        work := by
          have split := totalBlockWork_append (full.take (ancestorHeight + 1))
            (full.drop (ancestorHeight + 1))
          rw [List.take_append_drop] at split
          simp only [keep, describes.work]
          omega
        fits := by simp; omega
        undos_le := by simp [Chain.newFair]
        undoWorks := by simp [Chain.newFair] }
      replays := holds.follows.replays.take _
      live := rewoundTo
      tracks := trialTracked.ledger
      covers := UndoLog.covers_nil _ _ }
    sameNetwork := rfl
    tracked := trialTracked
    undos := rfl }

theorem Chain.undos_length_extend (chain : Chain P) (block : Block) (ledger : LedgerState P)
    (undo : StateUndo) : (chain.extend block ledger undo).undos.length =
      min maxReorgDepth (chain.undos.length + 1) := by
  rw [Chain.extend_undos, Chain.trimUndos, List.length_drop, List.length_append,
    List.length_singleton]
  omega

theorem Chain.undos_length_of_applyAll {nowUnix : UInt64} {last : Chain P}
    {blocks : List Block} (tracked : chain.Tracked)
    (window : chain.undos.length ≤ maxReorgDepth)
    (reached : Chain.applyAll nowUnix chain blocks = .ok last) :
    last.undos.length = min maxReorgDepth (chain.undos.length + blocks.length) := by
  induction blocks generalizing chain with
  | nil =>
      obtain rfl := Except.ok.inj reached
      simp [window]
  | cons block rest ih =>
      simp only [Chain.applyAll, Guard.bind_eq_ok, Guard.toExcept_eq_ok] at reached
      obtain ⟨next, accepted, reachedRest⟩ := reached
      have nextTracked := tracked.applyBlockInner block nowUnix true
      rw [← Chain.applyBlock, accepted] at nextTracked
      rw [Chain.applyBlock_eq tracked.ledger, Chain.settle_eq_ok] at accepted
      obtain ⟨ledger, undo, _, rfl⟩ := accepted
      have grown := chain.undos_length_extend (chain.storedForm block) ledger undo
      rw [ih nextTracked (by simp only [grown]; omega) reachedRest, grown, List.length_cons]
      omega

/-- What a finished suffix consists of. -/
theorem Chain.finishSuffix_eq_some {trial : SuffixTrial P} {suffix : List Block}
    {nowUnix : UInt64} {reorg : SuffixReorg P} :
    Chain.finishSuffix trial suffix nowUnix = .ok (some reorg) ↔
      suffix ≠ [] ∧
      trial.ourWork < Machine.saturatingAdd128 trial.trial.totalWork (totalBlockWork suffix) ∧
      ∃ last, Chain.applyAll nowUnix trial.trial suffix = .ok last ∧
        trial.ourWork < last.totalWork ∧
        reorg = {
          ledger := last.ledger
          headers := last.headers
          suffix := last.blocks
          undos := last.undos
          totalWork := last.totalWork
          rewind := trial.rewind
          basedOn := trial.basedOn } := by
  unfold Chain.finishSuffix
  by_cases empty : suffix = []
  · simp [empty]
  by_cases claimed : Machine.saturatingAdd128 trial.trial.totalWork (totalBlockWork suffix) ≤
      trial.ourWork
  · simp [empty, claimed]
  · simp only [empty, claimed, if_false, Guard.bind_eq_ok, Except.ok.injEq, ne_eq,
      not_false_eq_true, true_and]
    refine ⟨?_, ?_⟩
    · rintro ⟨last, reached, chosen⟩
      split at chosen
      · contradiction
      next heavier =>
          exact ⟨by omega, last, reached, by omega, (Option.some.inj chosen).symm⟩
    · rintro ⟨_, last, reached, heavier, rfl⟩
      exact ⟨last, reached, by simp [heavier]⟩

/-- A finished suffix continues from the ancestor of its trial. -/
theorem TrialFollows.finishSuffix {known : Set BlockHeader} {network : NetworkId}
    {trial : SuffixTrial P} {origin : List Block} {keep : Nat} {suffix : List Block}
    {nowUnix : UInt64} {reorg : SuffixReorg P}
    (trialFollows : TrialFollows R known network trial origin keep)
    (offered : ∀ block ∈ suffix, block.header ∈ known)
    (finished : Chain.finishSuffix trial suffix nowUnix = .ok (some reorg))
    (fits : reorg.headers.length < 2 ^ 64) :
    ∃ tail last, ReorgFollows R known network reorg origin keep tail last := by
  obtain ⟨_, _, last, reached, heavier, rfl⟩ := Chain.finishSuffix_eq_some.mp finished
  have length := Chain.length_of_applyAll trialFollows.tracked reached
  have window := Chain.undos_length_of_applyAll trialFollows.tracked
    (by simp [trialFollows.undos]) reached
  simp only [length, trialFollows.follows.describes.headers, List.length_map] at fits
  obtain ⟨follows, network⟩ := trialFollows.follows.applyAll trialFollows.tracked reached fits
  exact ⟨suffix.map trial.trial.storedForm, last, {
    linked := trialFollows.linked
    headersKnown := by
      intro block member
      rcases List.mem_append.mp member with old | new
      · exact trialFollows.headersKnown block old
      · obtain ⟨raw, inSuffix, rfl⟩ := List.mem_map.mp new
        rw [Chain.storedForm_header]
        exact offered raw inSuffix
    basedOn := trialFollows.basedOn
    length := trialFollows.length
    keep_pos := trialFollows.keep_pos
    follows := follows
    sameNetwork := network.trans trialFollows.sameNetwork
    undos_length := by simpa [trialFollows.undos] using window
    heavier := trialFollows.ourWork ▸ heavier
    fields := rfl }⟩

/-- A full window hides everything older. -/
theorem Chain.trimUndos_append {older newer : List TipUndo}
    (whole : newer.length = maxReorgDepth) : Chain.trimUndos (older ++ newer) = newer := by
  rw [Chain.trimUndos, List.length_append, whole, Nat.add_sub_cancel]
  exact List.drop_left

/-- Dropping the newest elements on both sides keeps a suffix. -/
theorem suffix_take_of_suffix {α : Type*} {short long : List α} (suffix : short <:+ long)
    {count : Nat} (inside : count ≤ short.length) :
    short.take (short.length - count) <:+ long.take (long.length - count) := by
  obtain ⟨front, rfl⟩ := suffix
  have length : (front ++ short).length - count = front.length + (short.length - count) := by
    rw [List.length_append]
    omega
  rw [length, List.take_length_add_append]
  exact List.suffix_append _ _

/-- The joined window of a splice carries the works of the new blocks and leads back. -/
theorem spliced_window {front tail : List Block} {older newer : List TipUndo}
    {past : ℕ → LedgerState P → Prop} (window : newer.length = min maxReorgDepth tail.length)
    (olderWorks : older.map TipUndo.work <:+ front.map Block.work)
    (newerWorks : newer.map TipUndo.work <:+ (front ++ tail).map Block.work)
    (olderCovers : UndoLog.Covers LedgerState.rewind past front.length
      (older.map TipUndo.state))
    (newerCovers : UndoLog.Covers LedgerState.rewind past (front ++ tail).length
      (newer.map TipUndo.state)) :
    (Chain.trimUndos (older ++ newer)).map TipUndo.work <:+ (front ++ tail).map Block.work ∧
      UndoLog.Covers LedgerState.rewind past (front ++ tail).length
        ((Chain.trimUndos (older ++ newer)).map TipUndo.state) := by
  by_cases short : tail.length ≤ maxReorgDepth
  · -- The window of the suffix reaches back to the ancestor.
    have length : newer.length = tail.length := by omega
    have kept := Chain.trimUndos_suffix (older ++ newer)
    have sameWorks : newer.map TipUndo.work = tail.map Block.work := by
      rw [List.map_append] at newerWorks
      have inside := List.suffix_of_suffix_length_le newerWorks
        (List.suffix_append (front.map Block.work) _) (by simp [length])
      exact inside.eq_of_length (by simp [length])
    refine ⟨(kept.map _).trans ?_, ?_⟩
    · rw [List.map_append, List.map_append, sameWorks]
      exact List.suffix_append_self_iff.mpr olderWorks
    · refine UndoLog.Covers.suffix ?_ (kept.map _)
      rw [List.map_append]
      exact olderCovers.append newerCovers (by simp [length])
  · rw [Chain.trimUndos_append (by omega)]
    exact ⟨newerWorks, newerCovers⟩

/-- A suffix is spliced onto the list it was prepared on. -/
theorem Chain.Holds.spliceSuffix {known : Set BlockHeader} {reorg : SuffixReorg P}
    {origin tail : List Block} {keep : Nat} {last : Chain P}
    (collisionFree : Set.InjOn (BlockHeader.hash P) known) (holds : chain.Holds R full)
    (headersKnown : ∀ block ∈ full, block.header ∈ known)
    (prepared : ReorgFollows R known chain.network reorg origin keep tail last)
    (notStale : NotStale origin full) :
    (chain.spliceSuffix reorg).2 = chain ∨
      ((chain.spliceSuffix reorg).2.Holds R (full.take keep ++ tail) ∧
        (chain.spliceSuffix reorg).2.network = chain.network ∧
        totalBlockWork full < totalBlockWork (full.take keep ++ tail)) := by
  have describes := holds.follows.describes
  unfold Chain.spliceSuffix
  split
  next refused => exact Or.inl rfl
  next current =>
  split
  next refused => exact Or.inl rfl
  next covered =>
  right
  simp only [not_or, not_not, Nat.not_le, Nat.not_lt, ne_eq] at current covered
  obtain ⟨sameTip, heavier⟩ := current
  obtain ⟨insideBlocks, insideUndos⟩ := covered
  rw [describes.tipHash_eq, prepared.basedOn] at sameTip
  have keepPos := prepared.keep_pos
  have originLength := prepared.length
  have originNonempty : origin ≠ [] := by
    rintro rfl
    simp at originLength
    omega
  have fullNonempty : full ≠ [] := by
    rintro rfl
    have := totalBlockWork_pos originNonempty
    have := notStale.1
    simp [totalBlockWork] at *
    omega
  -- The same tip has the same headers, so no work was gained since the preparation.
  obtain rfl : origin = full := notStale.2 <| totalBlockWork_congr <|
    headers_eq_of_tipHash_eq collisionFree prepared.linked describes.linked
      (fun block member => prepared.headersKnown block (List.mem_append_left _ member))
      headersKnown originNonempty fullNonempty sameTip.symm
  have blocksLength : chain.blocks.length = origin.length - chain.firstHeight := by
    simp [describes.blocks]
  have bound := describes.skip_le
  have firstLe : chain.firstHeight ≤ keep := by omega
  have front : (origin.take keep).length = keep := by
    rw [List.length_take]
    omega
  have coversOlder : UndoLog.Covers LedgerState.rewind
      (fun moment state => R.rel state
        (replay P chain.network ((origin.take keep ++ tail).take moment)))
      (origin.take keep).length
      ((chain.undos.take (chain.undos.length - reorg.rewind)).map TipUndo.state) := by
    have whole := holds.follows.covers
    rw [← List.take_append_drop (chain.undos.length - reorg.rewind) chain.undos,
      List.map_append] at whole
    have older := whole.older
    rw [List.length_map, List.length_drop, Nat.sub_sub_self insideUndos, originLength,
      Nat.add_sub_cancel] at older
    rw [front]
    refine older.congr fun moment _ inside => ?_
    rw [List.take_append_of_le_length (by omega), List.take_take, min_eq_left inside]
  have worksOlder : (chain.undos.take (chain.undos.length - reorg.rewind)).map TipUndo.work <:+
      (origin.take keep).map Block.work := by
    have older := suffix_take_of_suffix describes.undoWorks
      (by simpa using insideUndos)
    rwa [List.length_map, List.length_map, ← List.map_take, ← List.map_take, originLength,
      Nat.add_sub_cancel] at older
  have suffixCovers := prepared.follows.covers
  rw [prepared.sameNetwork] at suffixCovers
  obtain ⟨works, covers⟩ := spliced_window prepared.undos_length worksOlder
    prepared.follows.describes.undoWorks coversOlder suffixCovers
  have windowLe := Chain.trimUndos_length
    (chain.undos.take (chain.undos.length - reorg.rewind) ++ last.undos)
  obtain ⟨ledger, headers, suffix, undos, totalWork, rewind, basedOn⟩ := reorg
  obtain ⟨rfl, rfl, rfl, rfl, rfl, _⟩ := SuffixReorg.mk.inj prepared.fields
  have final := prepared.follows
  have kept : chain.blocks.take (chain.blocks.length - rewind) ++ last.blocks =
      (origin.take keep ++ tail).drop chain.firstHeight := by
    have newer : last.blocks = tail := by
      rw [final.describes.blocks, List.drop_left' front]
    have count : chain.blocks.length - rewind = keep - chain.firstHeight := by omega
    rw [newer, count, describes.blocks, ← List.drop_take,
      List.drop_append_of_le_length (by omega)]
  dsimp only at windowLe covers works ⊢
  generalize Chain.trimUndos
    (chain.undos.take (chain.undos.length - rewind) ++ last.undos) = window
    at windowLe covers works ⊢
  exact ⟨{
    follows := {
      describes := {
        headers := final.describes.headers
        blocks := kept
        skip_le := by
          rw [List.length_append, front]
          show chain.firstHeight ≤ _
          omega
        first_le := le_rfl
        linked := prepared.sameNetwork ▸ final.describes.linked
        work := final.describes.work
        fits := final.describes.fits
        undos_le := windowLe
        undoWorks := works }
      replays := prepared.sameNetwork ▸ final.replays
      live := prepared.sameNetwork ▸ final.live
      tracks := final.tracks
      covers := covers }
    archive := holds.archive
    horizon := by
      intro horizon present
      have known := holds.horizon horizon present
      have below : (origin.take keep ++ tail).take chain.firstHeight =
          origin.take chain.firstHeight := by
        rw [List.take_append_of_le_length (by omega), List.take_take, min_eq_left firstLe]
      simp only [below]
      exact known }, rfl, by
    rw [describes.work, final.describes.work] at heavier
    exact heavier⟩

end Chains

/-! ## Any operation -/

section Nodes

variable {R : LiveRelation P} {known : Set BlockHeader} {network : NetworkId} {node : Node P}
  {full : List Block}

/-- A new chain with the invariant, and progress on the block list. -/
theorem Node.Holds.withChain (holds : node.Holds R known network full) {next : Chain P}
    {nextFull : List Block} {left : List (SuffixReorg P)} (nextHolds : next.Holds R nextFull)
    (nextNetwork : next.network = network) (nextTracked : next.Tracked)
    (nextKnown : ∀ block ∈ nextFull, block.header ∈ known) (progress : Progress full nextFull)
    (fewer : ∀ reorg ∈ left, reorg ∈ node.reorgs) :
    (Node.mk next node.trials left).Holds R known network nextFull where
  chain := nextHolds
  sameNetwork := nextNetwork
  tracked := nextTracked
  headersKnown := nextKnown
  trials := by
    intro trial member
    obtain ⟨origin, keep, follows, notStale⟩ := holds.trials trial member
    exact ⟨origin, keep, follows, notStale.progress progress⟩
  reorgs := by
    intro reorg member
    obtain ⟨origin, keep, tail, last, follows, notStale⟩ := holds.reorgs reorg (fewer reorg member)
    exact ⟨origin, keep, tail, last, follows, notStale.progress progress⟩

/-- An operation that appended nothing or one known block. -/
theorem Node.Holds.withBlock (holds : node.Holds R known network full) {next : Chain P}
    {block : Block} (nextNetwork : next.network = network) (nextTracked : next.Tracked)
    (blockKnown : block.header ∈ known)
    (outcome : next = node.chain ∨ next.Holds R (full ++ [block])) :
    ∃ nextFull, ({ node with chain := next } : Node P).Holds R known network nextFull ∧
      Progress full nextFull := by
  rcases outcome with rfl | grown
  · exact ⟨full, holds, Progress.refl full⟩
  · have progress : Progress full (full ++ [block]) := Or.inl (List.prefix_append _ _)
    refine ⟨full ++ [block], holds.withChain grown nextNetwork nextTracked ?_ progress
      fun _ member => member, progress⟩
    intro other member
    rcases List.mem_append.mp member with old | new
    · exact holds.headersKnown other old
    · obtain rfl := List.mem_singleton.mp new
      exact blockKnown

theorem Chain.applyBlockInner_sameNetwork {chain : Chain P} (tracked : chain.Tracked)
    (block : Block) (nowUnix : UInt64) (verifyPow : Bool) :
    (chain.applyBlockInner block nowUnix verifyPow).2.network = chain.network := by
  rw [Chain.applyBlockInner_eq tracked.ledger]
  cases chain.verdict (chain.storedForm block) nowUnix verifyPow <;> rfl

theorem Chain.applyBlockFromOwnDisk_sameNetwork (chain : Chain P) (block : Block) :
    (chain.applyBlockFromOwnDisk block).2.network = chain.network := by
  rw [Chain.applyBlockFromOwnDisk_eq]
  cases chain.ownDiskVerdict (chain.storedForm block) <;> rfl

theorem Chain.ingestFrom_sameNetwork {nowUnix : UInt64} {chain : Chain P}
    (tracked : chain.Tracked) (count : Nat) (blocks : List Block) :
    (Chain.ingestFrom nowUnix count chain blocks).2.Tracked ∧
      (Chain.ingestFrom nowUnix count chain blocks).2.network = chain.network := by
  let holds (current : Chain P) : Prop := current.Tracked ∧ current.network = chain.network
  have start : holds chain := ⟨tracked, rfl⟩
  have kept (current : Chain P) (block : Block) (same : holds current) :
      holds (current.applyBlock block nowUnix).2 :=
    ⟨same.1.applyBlockInner block nowUnix true,
      (Chain.applyBlockInner_sameNetwork same.1 block nowUnix true).trans same.2⟩
  exact Chain.ingestFrom_induction kept start count blocks

theorem Chain.pruneKeep_sameNetwork (chain : Chain P) (keep : Nat) :
    (chain.pruneKeep keep).2.network = chain.network := by
  simp only [Chain.pruneKeep]
  split
  · rfl
  · split <;> rfl

theorem Chain.spliceSuffix_tracked {chain : Chain P} (tracked : chain.Tracked)
    {reorg : SuffixReorg P} (tracks : reorg.ledger.utxos.Tracks) :
    (chain.spliceSuffix reorg).2.Tracked := by
  unfold Chain.spliceSuffix
  split
  · exact tracked
  split
  · exact tracked
  · exact ⟨tracks, tracked.horizon⟩

/-- Every admissible operation keeps the invariant, and extends the block list or
replaces it by one with more work. -/
theorem Node.Holds.step (collisionFree : Set.InjOn (BlockHeader.hash P) known)
    (holds : node.Holds R known network full) {op : Op} (admissible : Admissible R known node op) :
    ∃ next, (node.step op).Holds R known network next ∧ Progress full next := by
  obtain ⟨offered, fits, admits⟩ := admissible
  have chainFits := fits.1
  have networks := holds.sameNetwork
  cases op with
  | applyBlock block nowUnix =>
      refine holds.withBlock
        ((Chain.applyBlockInner_sameNetwork holds.tracked block nowUnix true).trans networks)
        (holds.tracked.applyBlockInner block nowUnix true) ?_
        (holds.chain.applyBlockInner block nowUnix true chainFits)
      rw [Chain.storedForm_header]
      exact offered block (by simp [Op.blocks])
  | applyBlockLocallyTrusted block nowUnix =>
      refine holds.withBlock
        ((Chain.applyBlockInner_sameNetwork holds.tracked block nowUnix false).trans networks)
        (holds.tracked.applyBlockInner block nowUnix false) ?_
        (holds.chain.applyBlockInner block nowUnix false chainFits)
      rw [Chain.storedForm_header]
      exact offered block (by simp [Op.blocks])
  | applyBlockFromOwnDisk block =>
      refine holds.withBlock
        ((Chain.applyBlockFromOwnDisk_sameNetwork node.chain block).trans networks)
        (holds.tracked.applyBlockFromOwnDisk block) ?_
        (holds.chain.applyBlockFromOwnDisk block admits chainFits)
      rw [Chain.storedForm_header]
      exact offered block (by simp [Op.blocks])
  | tryIngestBlocks blocks nowUnix =>
      obtain ⟨more, grown, headers⟩ :=
        holds.chain.ingestFrom holds.tracked 0 blocks chainFits
      obtain ⟨nextTracked, sameNetwork⟩ :=
        @Chain.ingestFrom_sameNetwork P nowUnix node.chain holds.tracked 0 blocks
      have progress : Progress full (full ++ more) := Or.inl (List.prefix_append _ _)
      refine ⟨full ++ more, holds.withChain grown (sameNetwork.trans networks) nextTracked ?_
        progress fun _ member => member, progress⟩
      intro block member
      rcases List.mem_append.mp member with old | new
      · exact holds.headersKnown block old
      · obtain ⟨origin, inBlocks, header⟩ := headers block new
        rw [header]
        exact offered origin inBlocks
  | maybeReorgTo blocks nowUnix =>
      rcases holds.chain.maybeReorgTo holds.tracked admits chainFits with
        same | ⟨replaced, sameNetwork, heavier⟩
      · exact ⟨full, by simp only [Node.step, same]; exact holds, Progress.refl full⟩
      · have progress : Progress full
            (full.take node.chain.firstHeight ++ blocks.map node.chain.storedForm) := by
          refine Or.inr ?_
          rwa [holds.chain.follows.describes.work, replaced.follows.describes.work] at heavier
        refine ⟨_, holds.withChain replaced (sameNetwork.trans networks)
          (holds.tracked.maybeReorgTo blocks nowUnix) ?_ progress fun _ member => member, progress⟩
        intro block member
        rcases List.mem_append.mp member with old | new
        · exact holds.headersKnown block (List.mem_of_mem_take old)
        · obtain ⟨raw, inBlocks, rfl⟩ := List.mem_map.mp new
          rw [Chain.storedForm_header]
          exact offered raw inBlocks
  | pruneKeep keep =>
      exact ⟨full, holds.withChain (holds.chain.pruneKeep keep).2
        ((Chain.pruneKeep_sameNetwork node.chain keep).trans networks)
        (holds.tracked.pruneKeep keep) holds.headersKnown (Progress.refl full)
        fun _ member => member, Progress.refl full⟩
  | prepareSuffixTrial ancestorHeight =>
      refine ⟨full, ?_, Progress.refl full⟩
      simp only [Node.step]
      cases prepared : node.chain.prepareSuffixTrial ancestorHeight with
      | error error => exact holds
      | ok trial =>
          refine { holds with trials := ?_ }
          intro other member
          rcases List.mem_append.mp member with old | new
          · exact holds.trials other old
          · obtain rfl := List.mem_singleton.mp new
            have follows := holds.chain.prepareSuffixTrial holds.tracked holds.headersKnown prepared
            rw [networks] at follows
            exact ⟨full, ancestorHeight + 1, follows, NotStale.refl full⟩
  | finishSuffix position suffix nowUnix =>
      refine ⟨full, ?_, Progress.refl full⟩
      simp only [Node.step] at fits ⊢
      cases found : node.trials[position]? with
      | none => exact holds
      | some trial =>
          have fewer : ∀ other ∈ node.trials.eraseIdx position, ∃ origin keep,
              TrialFollows R known network other origin keep ∧ NotStale origin full :=
            fun other member => holds.trials other (List.mem_of_mem_eraseIdx member)
          simp only [found] at fits ⊢
          split at fits
          next reorg finished =>
              refine { holds with trials := fewer, reorgs := ?_ }
              intro other member
              rcases List.mem_append.mp member with old | new
              · exact holds.reorgs other old
              · obtain rfl := List.mem_singleton.mp new
                obtain ⟨origin, keep, follows, notStale⟩ :=
                  holds.trials trial (List.mem_of_getElem? found)
                obtain ⟨tail, last, continues⟩ :=
                  follows.finishSuffix offered finished (fits.2 _ (by simp))
                exact ⟨origin, keep, tail, last, continues, notStale⟩
          next => exact { holds with trials := fewer }
  | spliceSuffix position =>
      simp only [Node.step]
      cases found : node.reorgs[position]? with
      | none => exact ⟨full, holds, Progress.refl full⟩
      | some reorg =>
          have fewer : ∀ other ∈ node.reorgs.eraseIdx position, other ∈ node.reorgs :=
            fun other member => List.mem_of_mem_eraseIdx member
          obtain ⟨origin, keep, tail, last, prepared, notStale⟩ :=
            holds.reorgs reorg (List.mem_of_getElem? found)
          have nextTracked : (node.chain.spliceSuffix reorg).2.Tracked := by
            apply Chain.spliceSuffix_tracked holds.tracked
            rw [prepared.fields]
            exact prepared.follows.tracks
          have continues := prepared
          rw [← networks] at continues
          rcases holds.chain.spliceSuffix collisionFree holds.headersKnown continues notStale with
            same | ⟨replaced, sameNetwork, heavier⟩
          · simp only [same]
            exact ⟨full, holds.withChain holds.chain networks holds.tracked holds.headersKnown
              (Progress.refl full) fewer, Progress.refl full⟩
          · refine ⟨full.take keep ++ tail, holds.withChain replaced (sameNetwork.trans networks)
              nextTracked ?_ (Or.inr heavier) fewer, Or.inr heavier⟩
            intro block member
            rcases List.mem_append.mp member with old | new
            · exact holds.headersKnown block (List.mem_of_mem_take old)
            · exact prepared.headersKnown block (List.mem_append_right _ new)

/-- The invariant holds after every admissible run. -/
theorem Node.holds_run (collisionFree : Set.InjOn (BlockHeader.hash P) known) {ops : List Op}
    (admissible : GuardedRun.Along Node.step (Admissible R known) (Node.start P network) ops) :
    ∃ full, ((Node.start P network).run ops).Holds R known network full := by
  let invariant (node : Node P) : Prop := ∃ full, node.Holds R known network full
  have start : invariant (Node.start P network) := ⟨[], Node.holds_start R known network⟩
  refine admissible.invariant start ?_
  rintro node op ⟨full, holds⟩ allowed
  obtain ⟨next, nextHolds, _⟩ := holds.step collisionFree allowed
  exact ⟨next, nextHolds⟩

end Nodes

end Nightfall
