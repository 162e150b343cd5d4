import Nightfall.Consensus.ForkChoice

/-!
# A node stands on validated blocks

While a node replays nothing but its own history on trust, every chain that it stands on
is one that full validation builds from genesis, in any interleaving of extensions, prunes
and both kinds of reorg.
-/

namespace Nightfall

variable {P : Primitives}

/-- What a candidate takes on trust are the bodies that the chain keeps. -/
def Chain.OwnHistory (chain : Chain P) (blocks : List Block) : Prop :=
  (blocks.take (chain.trustedPrefix blocks)).map chain.storedForm <+: chain.blocks

instance (chain : Chain P) (blocks : List Block) : Decidable (chain.OwnHistory blocks) :=
  inferInstanceAs (Decidable (_ <+: _))

/-- The operation validates every block that is not our own history. -/
def Op.Untrusting (chain : Chain P) : Op → Prop
  | applyBlockLocallyTrusted _ _ => False
  | applyBlockFromOwnDisk _ => False
  | maybeReorgTo blocks _ => chain.OwnHistory blocks
  | _ => True

instance Op.decidableUntrusting (chain : Chain P) : (op : Op) → Decidable (op.Untrusting chain)
  | applyBlock _ _ => isTrue trivial
  | applyBlockLocallyTrusted _ _ => isFalse id
  | applyBlockFromOwnDisk _ => isFalse id
  | tryIngestBlocks _ _ => isTrue trivial
  | maybeReorgTo blocks _ => inferInstanceAs (Decidable (chain.OwnHistory blocks))
  | pruneKeep _ => isTrue trivial
  | prepareSuffixTrial _ => isTrue trivial
  | finishSuffix _ _ _ => isTrue trivial
  | spliceSuffix _ => isTrue trivial

namespace Chain

variable {chain next last : Chain P} {nowUnix : UInt64} {full : List Block} {skip : Nat}

/-! ## Growing by validated blocks -/

/-- Validated blocks carry the whole invariant on. -/
theorem Holds.of_applyAll (holds : chain.Holds (exactRelation P) full) (tracked : chain.Tracked)
    {blocks : List Block} (reached : Chain.applyAll nowUnix chain blocks = .ok last)
    (fits : full.length + blocks.length < 2 ^ 64) :
    last.Holds (exactRelation P) (full ++ blocks.map chain.storedForm) := by
  obtain ⟨follows, network⟩ := holds.follows.applyAll tracked reached fits
  have base := (extends_of_applyAll holds.follows reached).base
  have bound := holds.follows.describes.skip_le
  refine ⟨base.firstHeight ▸ follows, ?_, ?_⟩
  · rw [base.horizon, base.firstHeight]
    exact holds.archive
  · rw [base.horizon, base.firstHeight, base.horizonWork, network,
      List.take_append_of_le_length bound]
    exact holds.horizon

/-- An ingestion validates a part of what it is given, and is left where that leads. -/
theorem applyAll_of_ingestFrom (tracked : chain.Tracked) (count : Nat) (blocks : List Block) :
    ∃ taken, taken <+: blocks ∧
      Chain.applyAll nowUnix chain taken = .ok (ingestFrom nowUnix count chain blocks).2 := by
  induction blocks generalizing chain count with
  | nil => exact ⟨[], List.prefix_rfl, rfl⟩
  | cons block rest ih =>
      have nextTracked := tracked.applyBlockInner block nowUnix true
      rw [← Chain.applyBlock] at nextTracked
      have judged := applyBlock_eq tracked.ledger block nowUnix
      simp only [ingestFrom]
      cases verdict : chain.verdict (chain.storedForm block) nowUnix true with
      | error error =>
          rw [verdict] at judged
          rw [judged, settle]
          refine ⟨[], List.nil_prefix, ?_⟩
          split
          · next accepted => cases (Prod.mk.inj accepted).1
          · next rejected => rw [← (Prod.mk.inj rejected).2]; rfl
          · next rejected => rw [← (Prod.mk.inj rejected).2]; rfl
          · next rejected =>
              rw [← (Prod.mk.inj rejected).2]
              split <;> rfl
      | ok accepted =>
          rw [verdict] at judged
          rw [judged] at nextTracked ⊢
          obtain ⟨taken, inside, reached⟩ := ih nextTracked (count + 1)
          refine ⟨block :: taken, (List.prefix_cons_inj block).mpr inside, ?_⟩
          rw [Chain.applyAll, judged]
          exact reached

/-! ## Taking a candidate -/

/-- A replay looks at the stored form of the blocks only. -/
theorem replayFrom_storedForm {trustedPrefix index : Nat} (tracked : chain.Tracked)
    (blocks : List Block) :
    replayFrom trustedPrefix nowUnix index chain (blocks.map chain.storedForm) =
      replayFrom trustedPrefix nowUnix index chain blocks := by
  induction blocks generalizing chain index with
  | nil => rfl
  | cons block rest ih =>
      have own : chain.applyBlockFromOwnDisk (chain.storedForm block) =
          chain.applyBlockFromOwnDisk block := by
        rw [applyBlockFromOwnDisk, storedForm_storedForm, applyBlockFromOwnDisk]
      have full : chain.applyBlock (chain.storedForm block) nowUnix =
          chain.applyBlock block nowUnix := by
        rw [Chain.applyBlock, applyBlockInner, storedForm_storedForm, Chain.applyBlock,
          applyBlockInner]
      have later {outcome : Guard.Outcome ConsensusError (Chain P)}
          (same : ∀ next, outcome = (.ok (), next) → next.Tracked ∧ next.network = chain.network) :
          (Guard.toExcept outcome >>= fun next => replayFrom trustedPrefix nowUnix (index + 1) next
            (rest.map chain.storedForm)) =
          (Guard.toExcept outcome >>= fun next => replayFrom trustedPrefix nowUnix (index + 1) next
            rest) := by
        obtain ⟨verdict, next⟩ := outcome
        cases verdict with
        | error error => rfl
        | ok done =>
            obtain ⟨nextTracked, network⟩ := same next rfl
            have rebuilt := @ih next (index + 1) nextTracked
            rw [storedForm_of_network_eq network] at rebuilt
            exact rebuilt
      simp only [List.map_cons, replayFrom, own, full]
      split
      · apply later
        intro next accepted
        have nextTracked := tracked.applyBlockFromOwnDisk block
        rw [accepted] at nextTracked
        exact ⟨nextTracked, (applyBlockFromOwnDisk_network accepted).1⟩
      · refine congrArg _ ?_
        funext _
        apply later
        intro next accepted
        have nextTracked := tracked.applyBlockInner block nowUnix true
        rw [← Chain.applyBlock, accepted] at nextTracked
        exact ⟨nextTracked, (applyBlockInner_network tracked.ledger accepted).1⟩

theorem trustedPrefix_le (chain : Chain P) (blocks : List Block) :
    chain.trustedPrefix blocks ≤ blocks.length := by
  have common (hashes : List Hash256) : commonPrefix P hashes blocks ≤ blocks.length := by
    unfold commonPrefix
    refine (List.takeWhile_prefix _).length_le.trans ?_
    rw [List.length_zip]
    exact Nat.min_le_left _ _
  unfold trustedPrefix
  split
  · refine max_le (common _) ?_
    simp only [assumeValidTo]
    split
    · next pinned => exact pinned.2.2.1
    · exact Nat.zero_le _
  · exact common _

/-- What stays below the horizon stays below it on a chain that was rebuilt from there. -/
theorem Holds.of_sameBase (holds : chain.Holds (exactRelation P) full)
    {candidate : Chain P} (base : SameBase chain.replayStart candidate) {keep : Nat}
    (held : chain.firstHeight ≤ keep) (inside : keep ≤ full.length) {tail : List Block}
    (follows : Follows (exactRelation P) candidate chain.firstHeight (full.take keep ++ tail)) :
    candidate.Holds (exactRelation P) (full.take keep ++ tail) := by
  obtain ⟨first, start⟩ := holds.replayStart
  have sameFirst : candidate.firstHeight = chain.firstHeight := base.firstHeight.trans first
  have below : (full.take keep ++ tail).take chain.firstHeight =
      full.take chain.firstHeight := by
    have front : chain.firstHeight ≤ (full.take keep).length := by
      rw [List.length_take, min_eq_left inside]
      exact held
    rw [List.take_append_of_le_length front, List.take_take, min_eq_left held]
  refine ⟨sameFirst ▸ follows, ?_, ?_⟩
  · intro none
    exact base.firstHeight.trans (start.archive (base.horizon ▸ none))
  · intro horizon present
    have known := start.horizon horizon (base.horizon ▸ present)
    rw [first, List.take_take, min_self] at known
    rw [base.horizonWork, base.network, sameFirst, below]
    exact known

/-- A candidate that wins stands on our history as far as it takes it on trust, and on
blocks that were validated behind that. -/
theorem Holds.of_maybeReorgTo (holds : chain.Holds (exactRelation P) full)
    (tracked : chain.Tracked) (accepts : Accepts P chain.network full) {blocks : List Block}
    (own : chain.OwnHistory blocks)
    (fits : (chain.maybeReorgTo blocks nowUnix).2.headers.length < 2 ^ 64) :
    (chain.maybeReorgTo blocks nowUnix).2 = chain ∨
      (chain.maybeReorgTo blocks nowUnix).2.network = chain.network ∧
        (chain.maybeReorgTo blocks nowUnix).2.Holds (exactRelation P)
          (full.take (chain.firstHeight + chain.trustedPrefix blocks) ++
            (blocks.drop (chain.trustedPrefix blocks)).map chain.storedForm) ∧
        Accepts P chain.network (full.take (chain.firstHeight + chain.trustedPrefix blocks) ++
          (blocks.drop (chain.trustedPrefix blocks)).map chain.storedForm) ∧
        chain.totalWork < (chain.maybeReorgTo blocks nowUnix).2.totalWork := by
  unfold Chain.maybeReorgTo at fits ⊢
  split at fits
  · exact .inl rfl
  · exact .inl rfl
  next candidate won =>
  right
  have heavier := (evaluateReorgAt_eq_some.mp won).2.2.2.2.2.2
  have replayed := replayFrom_of_evaluated won
  have taken : chain.adoptReorg candidate = (true, candidate) := by
    rw [adoptReorg, if_pos heavier]
  simp only [taken] at fits ⊢
  have describes := holds.follows.describes
  have within := chain.trustedPrefix_le blocks
  unfold OwnHistory at own
  generalize chain.trustedPrefix blocks = trusted at replayed own within ⊢
  have length : ((blocks.take trusted).map chain.storedForm).length = trusted := by
    rw [List.length_map, List.length_take, min_eq_left within]
  have inside : chain.firstHeight + trusted ≤ full.length := by
    have shorter := own.length_le
    have bound := describes.skip_le
    rw [length, describes.blocks, List.length_drop] at shorter
    omega
  have ours : (blocks.take trusted).map chain.storedForm =
      (full.take (chain.firstHeight + trusted)).drop chain.firstHeight := by
    have front := List.prefix_iff_eq_take.mp own
    rw [List.drop_take, Nat.add_sub_cancel_left]
    rwa [length, describes.blocks] at front
  have stored : chain.replayStart.storedForm = chain.storedForm :=
    storedForm_of_network_eq chain.replayStart_network
  have split : blocks.map chain.storedForm =
      (full.take (chain.firstHeight + trusted)).drop chain.firstHeight ++
        (blocks.drop trusted).map chain.storedForm := by
    rw [← ours, ← List.map_append, List.take_append_drop]
  obtain ⟨mid, midFollows, midTracked, base, -, rebuilt⟩ :=
    holds.own_replayed tracked accepts (Nat.le_add_right _ _) inside
  rw [← replayFrom_storedForm tracked.replayStart, stored, split] at replayed
  have reached := rebuilt nowUnix ((blocks.drop trusted).map chain.storedForm)
  rw [Nat.add_sub_cancel_left, replayed] at reached
  have network : mid.network = chain.network := base.network.trans chain.replayStart_network
  have front : (full.take (chain.firstHeight + trusted)).length = chain.firstHeight + trusted := by
    rw [List.length_take, min_eq_left inside]
  have room : (full.take (chain.firstHeight + trusted)).length +
      ((blocks.drop trusted).map chain.storedForm).length < 2 ^ 64 := by
    have grown := length_of_applyAll midTracked reached.symm
    rw [midFollows.describes.headers, List.length_map] at grown
    omega
  have again : ((blocks.drop trusted).map chain.storedForm).map mid.storedForm =
      (blocks.drop trusted).map chain.storedForm := by
    rw [storedForm_of_network_eq network, List.map_map]
    exact List.map_congr_left fun block _ => chain.storedForm_storedForm block
  obtain ⟨follows, sameNetwork⟩ := midFollows.applyAll midTracked reached.symm room
  have grown := Accepts.of_applyAll midTracked midFollows (network.symm ▸ accepts.take _)
    reached.symm room
  rw [again] at follows grown
  have behind := (extends_of_applyAll midFollows reached.symm).base
  have whole : SameBase chain.replayStart candidate :=
    ⟨behind.network.trans base.network, behind.firstHeight.trans base.firstHeight,
      behind.horizon.trans base.horizon, behind.horizonWork.trans base.horizonWork⟩
  exact ⟨sameNetwork.trans network, holds.of_sameBase whole (Nat.le_add_right _ _) inside follows,
    network ▸ grown, heavier⟩

end Chain

/-! ## The invariant of a node -/

/-- The blocks of a node and of its unfinished reorgs are validated. -/
structure Node.Validated (known : Set BlockHeader) (network : NetworkId) (node : Node P)
    (full : List Block) : Prop where
  chain : node.chain.Holds (exactRelation P) full
  sameNetwork : node.chain.network = network
  tracked : node.chain.Tracked
  headersKnown : ∀ block ∈ full, block.header ∈ known
  accepts : Chain.Accepts P network full
  trials : ∀ trial ∈ node.trials, ∃ origin keep,
    TrialFollows (exactRelation P) known network trial origin keep ∧ NotStale origin full ∧
      Chain.Accepts P network origin
  reorgs : ∀ reorg ∈ node.reorgs, ∃ origin keep tail last,
    ReorgFollows (exactRelation P) known network reorg origin keep tail last ∧
      NotStale origin full ∧ Chain.Accepts P network (origin.take keep ++ tail)

section Nodes

variable {known : Set BlockHeader} {network : NetworkId} {node : Node P} {full : List Block}

theorem Node.validated_start (known : Set BlockHeader) (network : NetworkId) :
    (Node.start P network).Validated known network [] where
  chain := Chain.holds_newFair _ network
  sameNetwork := rfl
  tracked := Chain.tracked_newFair network
  headersKnown := by simp
  accepts := Chained.nil _
  trials := by simp [Node.start]
  reorgs := by simp [Node.start]

/-- A chain that stands on other blocks, extended or heavier. -/
theorem Node.Validated.withChain (validated : node.Validated known network full)
    {next : Chain P} {nextFull : List Block} {left : List (SuffixReorg P)}
    (nextHolds : next.Holds (exactRelation P) nextFull) (nextNetwork : next.network = network)
    (nextTracked : next.Tracked) (nextKnown : ∀ block ∈ nextFull, block.header ∈ known)
    (nextAccepts : Chain.Accepts P network nextFull) (progress : Progress full nextFull)
    (fewer : ∀ reorg ∈ left, reorg ∈ node.reorgs) :
    (Node.mk next node.trials left).Validated known network nextFull where
  chain := nextHolds
  sameNetwork := nextNetwork
  tracked := nextTracked
  headersKnown := nextKnown
  accepts := nextAccepts
  trials := by
    intro trial member
    obtain ⟨origin, keep, follows, notStale, accepts⟩ := validated.trials trial member
    exact ⟨origin, keep, follows, notStale.progress progress, accepts⟩
  reorgs := by
    intro reorg member
    obtain ⟨origin, keep, tail, last, follows, notStale, accepts⟩ :=
      validated.reorgs reorg (fewer reorg member)
    exact ⟨origin, keep, tail, last, follows, notStale.progress progress, accepts⟩

/-- Known blocks that full validation takes in turn. -/
theorem Node.Validated.grow (validated : node.Validated known network full) {next : Chain P}
    {taken : List Block} {nowUnix : UInt64}
    (offered : ∀ block ∈ taken, block.header ∈ known)
    (reached : Chain.applyAll nowUnix node.chain taken = .ok next)
    (fits : next.headers.length < 2 ^ 64) :
    ∃ nextFull, ({ node with chain := next } : Node P).Validated known network nextFull := by
  have length := Chain.length_of_applyAll validated.tracked reached
  rw [validated.chain.follows.describes.headers, List.length_map] at length
  have room : full.length + taken.length < 2 ^ 64 := by omega
  have holds := validated.chain.of_applyAll validated.tracked reached room
  have accepts := Chain.Accepts.of_applyAll validated.tracked validated.chain.follows
    (validated.sameNetwork.symm ▸ validated.accepts) reached room
  have base := (Chain.extends_of_applyAll validated.chain.follows reached).base
  refine ⟨_, validated.withChain holds (base.network.trans validated.sameNetwork) ⟨?_, ?_⟩ ?_
    (validated.sameNetwork ▸ accepts) (.inl (List.prefix_append _ _)) fun _ member => member⟩
  · exact holds.follows.tracks
  · rw [base.horizon]
    exact validated.tracked.horizon
  · intro block member
    rcases List.mem_append.mp member with old | new
    · exact validated.headersKnown block old
    · obtain ⟨raw, inside, rfl⟩ := List.mem_map.mp new
      rw [Chain.storedForm_header]
      exact offered raw inside

/-- A suffix that was finished on validated blocks is validated. -/
theorem TrialFollows.finished_accepts {trial : SuffixTrial P} {origin suffix : List Block}
    {keep : Nat} {nowUnix : UInt64} {reorg : SuffixReorg P}
    (trialFollows : TrialFollows (exactRelation P) known network trial origin keep)
    (accepts : Chain.Accepts P network origin)
    (offered : ∀ block ∈ suffix, block.header ∈ known)
    (finished : Chain.finishSuffix trial suffix nowUnix = .ok (some reorg))
    (fits : reorg.headers.length < 2 ^ 64) :
    ∃ last, ReorgFollows (exactRelation P) known network reorg origin keep
        (suffix.map trial.trial.storedForm) last ∧
      Chain.Accepts P network (origin.take keep ++ suffix.map trial.trial.storedForm) := by
  obtain ⟨tail, last, continues⟩ := trialFollows.finishSuffix offered finished fits
  obtain ⟨_, _, verified, reached, _, rfl⟩ := Chain.finishSuffix_eq_some.mp finished
  have follows := trialFollows.follows
  have front : (origin.take keep).length = keep := by
    have length := trialFollows.length
    rw [List.length_take]
    omega
  have room : (origin.take keep).length + suffix.length < 2 ^ 64 := by
    have length := Chain.length_of_applyAll trialFollows.tracked reached
    rw [follows.describes.headers, List.length_map] at length
    simp only at fits
    omega
  have grown := Chain.Accepts.of_applyAll trialFollows.tracked follows
    (trialFollows.sameNetwork.symm ▸ accepts.take keep) reached room
  have bodies : tail = suffix.map trial.trial.storedForm := by
    have kept : verified.blocks = last.blocks := congrArg SuffixReorg.suffix continues.fields
    have bare : trial.trial.blocks = [] := by
      rw [follows.describes.blocks, List.drop_of_length_le front.le]
    rw [(Chain.extends_of_applyAll follows reached).blocks, bare, List.nil_append,
      continues.follows.describes.blocks, List.drop_left' front] at kept
    exact kept.symm
  exact ⟨last, bodies ▸ continues, trialFollows.sameNetwork ▸ grown⟩

/-- A suffix that is spliced was prepared on the blocks that the chain still stands on. -/
theorem ReorgFollows.origin_eq {reorg : SuffixReorg P} {origin tail : List Block} {keep : Nat}
    {last chain : Chain P} (collisionFree : Set.InjOn (BlockHeader.hash P) known)
    (prepared : ReorgFollows (exactRelation P) known chain.network reorg origin keep tail last)
    (notStale : NotStale origin full) (holds : chain.Holds (exactRelation P) full)
    (headersKnown : ∀ block ∈ full, block.header ∈ known)
    (current : chain.tipHash = reorg.basedOn) : origin = full := by
  have describes := holds.follows.describes
  have keepPos := prepared.keep_pos
  have length := prepared.length
  have originNonempty : origin ≠ [] := List.ne_nil_of_length_pos (by omega)
  have fullNonempty : full ≠ [] := by
    rintro rfl
    have := totalBlockWork_pos originNonempty
    have := notStale.1
    simp only [totalBlockWork, List.map_nil, List.sum_nil] at *
    omega
  rw [describes.tipHash_eq, prepared.basedOn] at current
  exact notStale.2 (totalBlockWork_congr (headers_eq_of_tipHash_eq collisionFree prepared.linked
    describes.linked (fun block member => prepared.headersKnown block
      (List.mem_append_left _ member)) headersKnown originNonempty fullNonempty current.symm))

/-- A step that is allowed: the headers it offers are known, the result is in memory and
nothing but our own history is taken on trust. -/
structure Op.Allowed (known : Set BlockHeader) (node : Node P) (op : Op) : Prop where
  headersKnown : ∀ block ∈ op.blocks, block.header ∈ known
  fits : (node.step op).Fits
  untrusting : op.Untrusting node.chain

/-- Every allowed operation keeps the blocks of the node validated. -/
theorem Node.Validated.step (collisionFree : Set.InjOn (BlockHeader.hash P) known)
    (validated : node.Validated known network full) {op : Op} (allowed : op.Allowed known node) :
    ∃ next, (node.step op).Validated known network next := by
  obtain ⟨offered, fits, untrusting⟩ := allowed
  have networks := validated.sameNetwork
  have holds := validated.chain
  cases op with
  | applyBlock block nowUnix =>
      have judged := Chain.applyBlock_eq validated.tracked.ledger block nowUnix
      cases verdict : node.chain.verdict (node.chain.storedForm block) nowUnix true with
      | error error =>
          rw [verdict] at judged
          exact ⟨full, by simp only [Node.step, judged]; exact validated⟩
      | ok accepted =>
          rw [verdict] at judged
          have reached : Chain.applyAll nowUnix node.chain [block] =
              .ok (node.chain.applyBlock block nowUnix).2 := by
            rw [judged, Chain.applyAll, judged]
            rfl
          exact validated.grow offered reached fits.1
  | applyBlockLocallyTrusted block nowUnix => exact untrusting.elim
  | applyBlockFromOwnDisk block => exact untrusting.elim
  | tryIngestBlocks blocks nowUnix =>
      obtain ⟨taken, inside, reached⟩ :=
        @Chain.applyAll_of_ingestFrom _ _ nowUnix validated.tracked 0 blocks
      exact validated.grow (fun block member => offered block (inside.subset member)) reached fits.1
  | maybeReorgTo blocks nowUnix =>
      rcases holds.of_maybeReorgTo validated.tracked (networks.symm ▸ validated.accepts)
          untrusting fits.1 with same | ⟨network, replaced, accepts, heavier⟩
      · exact ⟨full, by simp only [Node.step, same]; exact validated⟩
      · refine ⟨_, validated.withChain replaced (network.trans networks)
          (validated.tracked.maybeReorgTo blocks nowUnix) ?_ (networks ▸ accepts) (.inr ?_)
          fun _ member => member⟩
        · intro block member
          rcases List.mem_append.mp member with old | new
          · exact validated.headersKnown block (List.mem_of_mem_take old)
          · obtain ⟨raw, inside, rfl⟩ := List.mem_map.mp new
            rw [Chain.storedForm_header]
            exact offered raw (List.mem_of_mem_drop inside)
        · rwa [holds.follows.describes.work, replaced.follows.describes.work] at heavier
  | pruneKeep keep =>
      exact ⟨full, validated.withChain (holds.pruneKeep keep).2
        ((Chain.pruneKeep_sameNetwork node.chain keep).trans networks)
        (validated.tracked.pruneKeep keep) validated.headersKnown validated.accepts
        (Progress.refl full) fun _ member => member⟩
  | prepareSuffixTrial ancestorHeight =>
      refine ⟨full, ?_⟩
      simp only [Node.step]
      cases prepared : node.chain.prepareSuffixTrial ancestorHeight with
      | error error => exact validated
      | ok trial =>
          refine { validated with trials := ?_ }
          intro other member
          rcases List.mem_append.mp member with old | new
          · exact validated.trials other old
          · obtain rfl := List.mem_singleton.mp new
            have follows :=
              holds.prepareSuffixTrial validated.tracked validated.headersKnown prepared
            rw [networks] at follows
            exact ⟨full, ancestorHeight + 1, follows, NotStale.refl full, validated.accepts⟩
  | finishSuffix position suffix nowUnix =>
      refine ⟨full, ?_⟩
      simp only [Node.step] at fits ⊢
      cases found : node.trials[position]? with
      | none => exact validated
      | some trial =>
          have fewer : ∀ other ∈ node.trials.eraseIdx position, ∃ origin keep,
              TrialFollows (exactRelation P) known network other origin keep ∧
                NotStale origin full ∧ Chain.Accepts P network origin :=
            fun other member => validated.trials other (List.mem_of_mem_eraseIdx member)
          simp only [found] at fits ⊢
          split at fits
          next reorg finished =>
              refine { validated with trials := fewer, reorgs := ?_ }
              intro other member
              rcases List.mem_append.mp member with old | new
              · exact validated.reorgs other old
              · obtain rfl := List.mem_singleton.mp new
                obtain ⟨origin, keep, follows, notStale, accepts⟩ :=
                  validated.trials trial (List.mem_of_getElem? found)
                obtain ⟨last, continues, grown⟩ :=
                  follows.finished_accepts accepts offered finished (fits.2 _ (by simp))
                exact ⟨origin, keep, _, last, continues, notStale, grown⟩
          next => exact { validated with trials := fewer }
  | spliceSuffix position =>
      simp only [Node.step]
      cases found : node.reorgs[position]? with
      | none => exact ⟨full, validated⟩
      | some reorg =>
          have fewer : ∀ other ∈ node.reorgs.eraseIdx position, other ∈ node.reorgs :=
            fun other member => List.mem_of_mem_eraseIdx member
          obtain ⟨origin, keep, tail, last, prepared, notStale, accepts⟩ :=
            validated.reorgs reorg (List.mem_of_getElem? found)
          have unchanged : (Node.mk node.chain node.trials (node.reorgs.eraseIdx position)
              ).Validated known network full :=
            validated.withChain holds networks validated.tracked validated.headersKnown
              validated.accepts (Progress.refl full) fewer
          have nextTracked : (node.chain.spliceSuffix reorg).2.Tracked := by
            apply Chain.spliceSuffix_tracked validated.tracked
            rw [prepared.fields]
            exact prepared.follows.tracks
          have continues := prepared
          rw [← networks] at continues
          by_cases current : node.chain.tipHash = reorg.basedOn
          · obtain rfl := continues.origin_eq collisionFree notStale holds
              validated.headersKnown current
            rcases holds.spliceSuffix collisionFree validated.headersKnown continues notStale with
              same | ⟨replaced, sameNetwork, heavier⟩
            · exact ⟨origin, by simp only [same]; exact unchanged⟩
            · refine ⟨_, validated.withChain replaced (sameNetwork.trans networks) nextTracked ?_
                accepts (.inr heavier) fewer⟩
              intro block member
              rcases List.mem_append.mp member with old | new
              · exact validated.headersKnown block (List.mem_of_mem_take old)
              · exact prepared.headersKnown block (List.mem_append_right _ new)
          · have refused : node.chain.spliceSuffix reorg = (false, node.chain) := by
              rw [Chain.spliceSuffix, if_pos (.inl current)]
            exact ⟨full, by simp only [refused]; exact unchanged⟩

/-- The blocks of a node are validated after every allowed run. -/
theorem Node.validated_run (collisionFree : Set.InjOn (BlockHeader.hash P) known) {ops : List Op}
    (allowed : GuardedRun.Along Node.step (fun node op => op.Allowed known node)
      (Node.start P network) ops) :
    ∃ full, ((Node.start P network).run ops).Validated known network full := by
  let invariant (node : Node P) : Prop := ∃ full, node.Validated known network full
  have start : invariant (Node.start P network) := ⟨[], Node.validated_start known network⟩
  refine allowed.invariant start ?_
  rintro node op ⟨full, validated⟩ admissible
  exact validated.step collisionFree admissible

end Nodes

/-! ## What a chain stands on -/

namespace Chain

variable {chain last mid : Chain P} {skip : Nat} {before full : List Block}

/-- The chain is what full validation made of the offers, with fewer bodies and a shorter
undo window: its horizon is where validation stood after the bodies that are gone, and every
rewind inside the window leads back to where validation once stood. -/
structure StandsOn (chain : Chain P) (offers : List (Block × UInt64)) (last : Chain P) :
    Prop where
  reached : (newFair P chain.network).offerAll offers = .ok last
  headers : chain.headers = last.headers
  ledger : chain.ledger = last.ledger
  totalWork : chain.totalWork = last.totalWork
  bodies : chain.blocks = last.blocks.drop chain.firstHeight
  pruned : chain.firstHeight ≤ offers.length
  horizon : ∀ horizon, chain.horizon = some horizon → ∃ base,
    (newFair P chain.network).offerAll (offers.take chain.firstHeight) = .ok base ∧
      horizon = base.ledger ∧ chain.horizonWork = base.totalWork
  rewinds : ∀ count ≤ chain.undos.length, ∃ past,
    (newFair P chain.network).offerAll (offers.take (offers.length - count)) = .ok past ∧
      chain.rewound count = past.ledger

/-- Offers that are all accepted continue the history by the stored form of their blocks. -/
theorem follows_of_offerAll {offers : List (Block × UInt64)} (tracked : chain.Tracked)
    (follows : Follows (exactRelation P) chain skip before)
    (reached : chain.offerAll offers = .ok last) (fits : before.length + offers.length < 2 ^ 64) :
    Follows (exactRelation P) last skip
      (before ++ offers.map fun offer => chain.storedForm offer.1) := by
  induction offers generalizing chain before with
  | nil =>
      obtain rfl := Except.ok.inj reached
      simpa using follows
  | cons offer rest ih =>
      obtain ⟨block, moment⟩ := offer
      rw [List.length_cons] at fits
      obtain ⟨next, accepted, reachedRest⟩ := offerAll_cons_eq_ok.mp reached
      have nextTracked := tracked.applyBlockInner block moment true
      rw [← Chain.applyBlock, accepted] at nextTracked
      have network := (applyBlockInner_network tracked.ledger accepted).1
      have there := ih nextTracked (follows.applyBlockInner accepted (by omega)) reachedRest
        (by simp; omega)
      rw [storedForm_of_network_eq network, List.append_assoc] at there
      exact there

/-- A part of the offers leads to a point on the way. -/
theorem offerAll_take {offers : List (Block × UInt64)} (reached : chain.offerAll offers = .ok last)
    (count : Nat) : ∃ mid, chain.offerAll (offers.take count) = .ok mid := by
  induction offers generalizing chain count with
  | nil => exact ⟨chain, by rw [List.take_nil]; rfl⟩
  | cons offer rest ih =>
      obtain ⟨block, moment⟩ := offer
      cases count with
      | zero => exact ⟨chain, rfl⟩
      | succ count =>
          obtain ⟨next, accepted, reachedRest⟩ := offerAll_cons_eq_ok.mp reached
          obtain ⟨mid, partway⟩ := ih reachedRest count
          exact ⟨mid, offerAll_cons_eq_ok.mpr ⟨next, accepted, partway⟩⟩

/-- What the invariant of an accepted chain says about full validation. -/
theorem Holds.standsOn (holds : chain.Holds (exactRelation P) full)
    (accepts : Accepts P chain.network full) : ∃ offers last, chain.StandsOn offers last := by
  have describes := holds.follows.describes
  have fits := describes.fits
  have start := follows_newFair (exactRelation P) chain.network
  obtain ⟨offers, last, blocks, reached, follows⟩ :=
    Accepts.offerAll (tracked_newFair chain.network) start accepts fits
  rw [List.nil_append] at follows
  have count : offers.length = full.length := by
    rw [← blocks, List.length_map]
  have networkOf {some : List (Block × UInt64)} {reachedChain : Chain P}
      (reached : (newFair P chain.network).offerAll some = .ok reachedChain) :
      reachedChain.network = chain.network :=
    ((settled_newFair chain.network).offerAll reached).2.1
  have stored : offers.map (fun offer => (newFair P chain.network).storedForm offer.1) = full := by
    have each : ∀ block ∈ full, (newFair P chain.network).storedForm block = block := by
      intro block member
      obtain ⟨before, after, split⟩ := List.append_of_mem member
      have validates := accepts before block after split
      exact (congrFun (storedForm_of_network_eq rfl) block).trans validates.1
    have kept : full.map (newFair P chain.network).storedForm = full.map id :=
      List.map_congr_left each
    rw [List.map_id, ← blocks, List.map_map] at kept
    rwa [blocks] at kept
  have partway (moment : Nat) : ∃ past, (newFair P chain.network).offerAll
      (offers.take moment) = .ok past ∧ past.ledger = replay P chain.network (full.take moment) ∧
        past.totalWork = totalBlockWork (full.take moment) := by
    obtain ⟨past, reachedPast⟩ := offerAll_take reached moment
    have followsPast := follows_of_offerAll (tracked_newFair chain.network) start reachedPast (by
      rw [List.length_take, count]
      simp only [List.length_nil]
      omega)
    rw [List.nil_append, List.map_take, stored] at followsPast
    have live := followsPast.live
    rw [networkOf reachedPast] at live
    exact ⟨past, reachedPast, live, followsPast.describes.work⟩
  have live : last.ledger = replay P last.network full := follows.live
  rw [networkOf reached] at live
  refine ⟨offers, last, reached, ?_, holds.follows.live.trans live.symm, ?_, ?_, ?_, ?_, ?_⟩
  · rw [describes.headers, follows.describes.headers]
  · rw [describes.work, follows.describes.work]
  · rw [describes.blocks, follows.describes.blocks, List.drop_zero]
  · rw [count]
    exact describes.skip_le
  · intro horizon present
    obtain ⟨rfl, work⟩ := holds.horizon horizon present
    obtain ⟨base, reachedBase, ledger, baseWork⟩ := partway chain.firstHeight
    exact ⟨base, reachedBase, ledger.symm, work.trans baseWork.symm⟩
  · intro rewind covered
    obtain ⟨past, reachedPast, ledger, -⟩ := partway (full.length - rewind)
    rw [count]
    exact ⟨past, reachedPast, (holds.follows.rewound covered).trans ledger.symm⟩

end Chain

/-! ## Runs -/

section Runs

variable {network : NetworkId} {ops : List Op}

/-- What a run has to meet: it is in memory, hashes of its headers do not collide, and no
step takes anything but our own history on trust. -/
structure Honest (P : Primitives) (network : NetworkId) (ops : List Op) : Prop where
  collisionFree : CollisionFree P ops
  fits : FitsAlong (P := P) network ops
  untrusting : GuardedRun.Along Node.step (fun node op => op.Untrusting node.chain)
    (Node.start P network) ops

instance (P : Primitives) (network : NetworkId) (ops : List Op) :
    Decidable (Honest P network ops) :=
  decidable_of_iff (CollisionFree P ops ∧ FitsAlong (P := P) network ops ∧
      GuardedRun.Along Node.step (fun node op => op.Untrusting node.chain)
        (Node.start P network) ops)
    ⟨fun ⟨collisionFree, fits, untrusting⟩ => ⟨collisionFree, fits, untrusting⟩,
      fun honest => ⟨honest.collisionFree, honest.fits, honest.untrusting⟩⟩

theorem Honest.validated (honest : Honest P network ops) : ∃ full,
    ((Node.start P network).run ops).Validated (offeredHeaders ops) network full := by
  have offered : GuardedRun.Along Node.step
      (fun _ op => ∀ block ∈ op.blocks, block.header ∈ offeredHeaders ops)
      (Node.start P network) ops :=
    GuardedRun.Along.of_forall_mem _
      fun op member block inBlocks => ⟨op, member, block, inBlocks, rfl⟩
  refine Node.validated_run honest.collisionFree.hash_injOn
    ((offered.and (GuardedRun.Along.and honest.fits honest.untrusting)).mono ?_)
  rintro node op ⟨known, fits, untrusting⟩
  exact ⟨known, fits, untrusting⟩

/-- After every honest run the node stands on a chain that full validation builds from
genesis. -/
theorem Node.standsOn_of_run (honest : Honest P network ops) :
    ((Node.start P network).run ops).chain.network = network ∧
      ∃ offers last, ((Node.start P network).run ops).chain.StandsOn offers last := by
  obtain ⟨full, validated⟩ := honest.validated
  exact ⟨validated.sameNetwork,
    validated.chain.standsOn (validated.sameNetwork.symm ▸ validated.accepts)⟩

end Runs

/-! ## Sample runs -/

namespace Sample

/-- A branch that leaves our history behind the first block. -/
def rivalBody : BlockBody :=
  bodyAt 1 [] [outputOf .plain (commitTo 0 60)] [kernelOf .plain 0 0 60]

def rival1 : Block := mine chain1 rivalBody
def rival2 : Block := mine (grow chain1 rivalBody) (bodyAt 2 [] [] [])

/-- Our first two blocks, then the heavier branch, verified as a suffix, and a prune. -/
def rivalOps : List Op :=
  [.applyBlock block0 now, .applyBlock block1 now, .prepareSuffixTrial 0,
    .finishSuffix 0 [rival1, rival2] now, .spliceSuffix 0, .pruneKeep 2]

end Sample

open Sample in
theorem Node.standsOn_of_rival :
    ∃ offers last, ((Node.start primitives .devnet).run rivalOps).chain.StandsOn offers last :=
  (Node.standsOn_of_run (by decide +kernel)).2

end Nightfall
