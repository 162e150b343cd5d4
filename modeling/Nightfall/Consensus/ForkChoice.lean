import Nightfall.Consensus.Records
import Nightfall.Consensus.Standing

/-!
# Two ways to change the branch

A node changes its branch by replaying a whole candidate from genesis or from its
horizon, or by rewinding its undo window and verifying the new suffix alone.  Both decide
the same contest between two block lists, with the same error when the suffix is invalid.
-/

namespace Nightfall

variable {P : Primitives}

namespace Chain

/-- The contest between the blocks `full` and the branch that leaves them at position
`keep`: the chain of the branch when it is valid and has more work.  A heavier branch that
would abandon too many blocks is refused unseen. -/
def contest (P : Primitives) (network : NetworkId) (full : List Block) (keep : Nat)
    (suffix : List Block) (nowUnix : UInt64) : Except ConsensusError (Option (Chain P)) :=
  if totalBlockWork (full.take keep ++ suffix) ≤ totalBlockWork full then .ok none
  else if full.length - keep > maxReorgDepth then .error .reorgTooDeep
  else (applyAll nowUnix (standing P network (full.take keep)) suffix).map some

/-! ## Replaying shared history -/

section Replay

variable {chain mid last : Chain P} {nowUnix : UInt64} {trustedPrefix index : Nat}
  {own suffix full : List Block}

theorem bind_of_passed {ε α : Type} {check : Except ε Unit} (passed : check = .ok ())
    (next : Unit → Except ε α) : (check >>= next) = next () := by
  rw [passed]
  rfl

/-- Behind the trusted prefix every block is validated in full. -/
theorem replayFrom_of_lt (past : trustedPrefix < index) :
    replayFrom trustedPrefix nowUnix index chain suffix = applyAll nowUnix chain suffix := by
  induction suffix generalizing index chain with
  | nil => rfl
  | cons block rest ih =>
      have untrusted : ¬index < trustedPrefix := by omega
      have behind : Guard.onlyIf (decide (index = trustedPrefix) && decide (trustedPrefix > 0))
          chain.checkTipRoots = .ok () := by
        rw [decide_eq_false (by omega), Bool.false_and]
        rfl
      simp only [replayFrom, if_neg untrusted, bind_of_passed behind, applyAll]
      refine congrArg _ ?_
      funext next
      exact ih (by omega)

/-- Once the trusted prefix is replayed and its roots are right, the rest is validated. -/
theorem replayFrom_append
    (replayed : replayFrom trustedPrefix nowUnix index chain own = .ok mid)
    (whole : index + own.length = trustedPrefix) (roots : mid.checkTipRoots = .ok ()) :
    replayFrom trustedPrefix nowUnix index chain (own ++ suffix) = applyAll nowUnix mid suffix := by
  induction own generalizing index chain with
  | nil =>
      obtain rfl := Except.ok.inj replayed
      rw [List.length_nil, Nat.add_zero] at whole
      subst whole
      cases suffix with
      | nil => rfl
      | cons block rest =>
          rw [List.nil_append]
          have checked : Guard.onlyIf (decide (index = index) && decide (index > 0))
              chain.checkTipRoots = .ok () :=
            (Guard.onlyIf_eq_ok _ _ _).mpr fun _ => roots
          rw [replayFrom, if_neg (lt_irrefl _), bind_of_passed checked, applyAll]
          refine congrArg _ ?_
          funext next
          exact replayFrom_of_lt (Nat.lt_succ_self _)
  | cons block rest ih =>
      rw [List.length_cons] at whole
      have trusted : index < trustedPrefix := by omega
      simp only [List.cons_append, replayFrom, if_pos trusted, Guard.bind_eq_ok,
        Guard.toExcept_eq_ok] at replayed ⊢
      obtain ⟨next, accepted, replayedRest⟩ := replayed
      rw [accepted]
      exact ih replayedRest (by omega)

theorem Holds.settled_replayStart (holds : chain.Holds (exactRelation P) full)
    (tracked : chain.Tracked) : chain.replayStart.Settled where
  tracked := tracked.replayStart
  binding := by
    have live : chain.replayStart.ledger = _ := holds.replayStart.2.follows.live
    rw [live, replay_bindingHeight]
  roots := by simp [checkTipRoots]

/-- The shared part of a candidate is replayed to a chain that stands on it, and only what
comes behind it is validated. -/
theorem Holds.own_replayed (holds : chain.Holds (exactRelation P) full)
    (tracked : chain.Tracked) (accepts : Accepts P chain.network full) {keep : Nat}
    (held : chain.firstHeight ≤ keep) (inside : keep ≤ full.length) :
    ∃ mid, Follows (exactRelation P) mid chain.firstHeight (full.take keep) ∧ mid.Tracked ∧
      SameBase chain.replayStart mid ∧ mid.blocks = (full.take keep).drop chain.firstHeight ∧
      ∀ nowUnix suffix, replayFrom (keep - chain.firstHeight) nowUnix 0 chain.replayStart
        ((full.take keep).drop chain.firstHeight ++ suffix) = applyAll nowUnix mid suffix := by
  obtain ⟨first, start⟩ := holds.replayStart
  have settled := holds.settled_replayStart tracked
  have fits := holds.follows.describes.fits
  have whole : full.take chain.firstHeight ++ (full.take keep).drop chain.firstHeight =
      full.take keep := by
    have split := List.take_append_drop chain.firstHeight (full.take keep)
    rwa [List.take_take, min_eq_left held] at split
  have length : ((full.take keep).drop chain.firstHeight).length = keep - chain.firstHeight := by
    rw [List.length_drop, List.length_take, min_eq_left inside]
  have acceptsPart := accepts.take keep
  rw [← whole, ← chain.replayStart_network] at acceptsPart
  obtain ⟨offers, mid, blocks, reached, follows⟩ := Accepts.offerAll tracked.replayStart
    start.follows acceptsPart (by rw [whole, List.length_take]; omega)
  rw [whole, first] at follows
  have kept := follows.describes.blocks
  have times : ∀ later, ∀ offer ∈ offers.drop (keep - chain.firstHeight - 0), offer.2 ≤ later := by
    intro later offer member
    have count : offers.length = keep - chain.firstHeight := by
      rw [← length, ← blocks, List.length_map]
    rw [Nat.sub_zero, ← count, List.drop_length] at member
    cases member
  have replayed (later : UInt64) : replayFrom (keep - chain.firstHeight) later 0
      chain.replayStart ((full.take keep).drop chain.firstHeight) = .ok mid :=
    settled.replayFrom reached (by rw [replayStart_blocks, List.nil_append, kept]) (times later)
  obtain ⟨midTracked, same⟩ := sameBase_replayFrom tracked.replayStart (replayed 0)
  refine ⟨mid, follows, midTracked, same, kept, fun nowUnix suffix => ?_⟩
  exact replayFrom_append (replayed nowUnix) (by rw [length, Nat.zero_add])
    (settled.offerAll reached).1.roots

end Replay

/-! ## Judging a candidate -/

section Judging

variable {chain mid last : Chain P} {nowUnix : UInt64} {full own rest suffix : List Block}

/-- A branch shares the blocks before the position at which it leaves. -/
theorem commonPrefix_own
    (apart : ∀ theirs ∈ suffix.head?, ∀ ours ∈ rest.head?, theirs.hash P ≠ ours.hash P) :
    commonPrefix P ((own ++ rest).map (Block.hash P)) (own ++ suffix) = own.length := by
  unfold commonPrefix
  induction own with
  | nil =>
      cases suffix with
      | nil => simp
      | cons theirs others =>
          cases rest with
          | nil => simp
          | cons ours behind =>
              have differs := apart theirs rfl ours rfl
              simp [differs]
  | cons block others ih => simpa using ih

theorem verifySupply_of_applyAll (tracked : chain.Tracked)
    (reached : applyAll nowUnix chain suffix = .ok last) (nonempty : suffix ≠ []) :
    last.verifySupply = .ok () := by
  induction suffix generalizing chain with
  | nil => contradiction
  | cons block rest ih =>
      simp only [applyAll, Guard.bind_eq_ok, Guard.toExcept_eq_ok] at reached
      obtain ⟨next, accepted, reachedRest⟩ := reached
      have nextTracked := tracked.applyBlockInner block nowUnix true
      rw [← Chain.applyBlock, accepted] at nextTracked
      cases rest with
      | nil =>
          obtain rfl := Except.ok.inj reachedRest
          exact (tip_of_accepted tracked.ledger accepted).2
      | cons other others => exact ih nextTracked reachedRest (List.cons_ne_nil _ _)

/-- Where the candidates of a chain start, and the work below that. -/
theorem Holds.prunedBase_start (holds : chain.Holds (exactRelation P) full) :
    (chain.prunedBase.map PrunedBase.firstHeight).getD 0 = chain.firstHeight ∧
      (chain.prunedBase.map PrunedBase.horizonWork).getD 0 =
        totalBlockWork (full.take chain.firstHeight) := by
  unfold prunedBase
  split
  · next archive => simp [archive, totalBlockWork]
  · next pruned =>
      cases found : chain.horizon with
      | none => exact absurd (holds.archive found) pruned
      | some horizon => exact ⟨rfl, (holds.horizon horizon found).2⟩

theorem extends_of_applyAll {skip : Nat} (follows : Follows (exactRelation P) chain skip full)
    (reached : applyAll nowUnix chain suffix = .ok last) : Extends chain last suffix := by
  have same := @Alike.applyAll _ _ _ nowUnix (alike_of_follows follows) follows.tracks suffix
  rw [reached] at same
  cases judged : applyAll nowUnix (standing P chain.network full) suffix with
  | error error =>
      rw [judged] at same
      exact same.elim
  | ok other =>
      rw [judged] at same
      exact same.2.1

/-- A candidate that goes beyond our history is rebuilt from its suffix. -/
theorem Holds.rebuildCandidate_eq (holds : chain.Holds (exactRelation P) full) {keep : Nat}
    (inside : keep ≤ full.length) (midTracked : mid.Tracked)
    (midFollows : Follows (exactRelation P) mid chain.firstHeight (full.take keep))
    {blocks : List Block}
    (replayed : replayFrom (keep - chain.firstHeight) nowUnix 0 chain.replayStart blocks =
      applyAll nowUnix mid suffix)
    (unpinned : assumeValidTo P chain.network blocks ≤ keep) (nonempty : suffix ≠ []) :
    rebuildCandidate chain.network chain.prunedBase blocks (keep - chain.firstHeight) keep
      nowUnix = applyAll nowUnix mid suffix := by
  have positive := List.length_pos_iff.mpr nonempty
  have unchecked {trustedPrefix count : Nat} (more : trustedPrefix < count) (last : Chain P) :
      Guard.onlyIf (decide (trustedPrefix > 0) && decide (trustedPrefix ≥ count))
        last.checkTipRoots = .ok () := by
    rw [decide_eq_false (Nat.not_le.mpr more), Bool.and_false]
    rfl
  have headers : mid.headers.length = keep := by
    rw [midFollows.describes.headers, List.length_map, List.length_take, min_eq_left inside]
  have blocksLength : mid.blocks.length = keep - chain.firstHeight := by
    rw [midFollows.describes.blocks, List.length_drop, List.length_take, min_eq_left inside]
  unfold Chain.replayStart at replayed
  cases found : chain.prunedBase with
  | none =>
      obtain ⟨first, _⟩ := holds.prunedBase_start
      rw [found] at first replayed
      simp only [Option.map_none, Option.getD_none] at first
      rw [← first, Nat.sub_zero] at replayed
      simp only [rebuildCandidate, rebuildFromBlocksTrustedPrefix, max_eq_left unpinned, replayed]
      cases reached : applyAll nowUnix mid suffix with
      | error error => rfl
      | ok last =>
          have count : keep < last.blockCount := by
            have length := length_of_applyAll midTracked reached
            unfold blockCount
            rw [if_pos (List.ne_nil_of_length_pos (by omega))]
            omega
          exact bind_of_passed (unchecked count last) _
  | some base =>
      rw [found] at replayed
      simp only [rebuildCandidate, rebuildFromPrunedBase, replayed]
      cases reached : applyAll nowUnix mid suffix with
      | error error => rfl
      | ok last =>
          have count : keep - chain.firstHeight < last.blocks.length := by
            rw [(extends_of_applyAll midFollows reached).blocks, List.length_append,
              List.length_map, blocksLength]
            omega
          exact bind_of_passed (unchecked count last) _

theorem totalBlockWork_storedForm (chain : Chain P) (blocks : List Block) :
    totalBlockWork (blocks.map chain.storedForm) = totalBlockWork blocks := by
  apply totalBlockWork_congr
  rw [List.map_map]
  exact List.map_congr_left fun block _ => chain.storedForm_header block

theorem totalBlockWork_take_le (full : List Block) (keep : Nat) :
    totalBlockWork (full.take keep) ≤ totalBlockWork full :=
  totalBlockWork_le_of_prefix (List.take_prefix keep full)

theorem contest_nil (network : NetworkId) (full : List Block) (keep : Nat) (nowUnix : UInt64) :
    contest P network full keep [] nowUnix = .ok none := by
  rw [contest, List.append_nil, if_pos (totalBlockWork_take_le full keep)]

/-- A branch that leaves our history at its own first block does so in the list of blocks. -/
theorem Holds.apart_of_hashAt (holds : chain.Holds (exactRelation P) full) {keep : Nat}
    (apart : ∀ theirs ∈ suffix.head?, chain.hashAt keep ≠ some (theirs.hash P)) :
    ∀ theirs ∈ suffix.head?, ∀ ours ∈ (full.drop keep).head?, theirs.hash P ≠ ours.hash P := by
  intro theirs offered ours next same
  apply apart theirs offered
  rw [holds.follows.describes.hashAt_eq, same]
  rw [List.head?_drop] at next
  rw [next]
  rfl

/-- What a candidate shares with our history are the bodies up to where it leaves. -/
theorem Holds.commonPrefix_shared (holds : chain.Holds (exactRelation P) full) {keep : Nat}
    (held : chain.firstHeight ≤ keep) (inside : keep ≤ full.length)
    (apart : ∀ theirs ∈ suffix.head?, ∀ ours ∈ (full.drop keep).head?,
      theirs.hash P ≠ ours.hash P) :
    commonPrefix P (chain.hashChain.drop chain.firstHeight)
        ((full.take keep).drop chain.firstHeight ++ suffix) = keep - chain.firstHeight := by
  have behind : full.drop chain.firstHeight =
      (full.take keep).drop chain.firstHeight ++ full.drop keep := by
    conv_lhs => rw [← List.take_append_drop keep full]
    rw [List.drop_append_of_le_length (by rw [List.length_take, min_eq_left inside]; exact held)]
  rw [holds.follows.describes.hashChain_eq, ← List.map_drop, behind, commonPrefix_own apart,
    List.length_drop, List.length_take, min_eq_left inside]

/-- A reorg to a whole candidate decides the contest. -/
theorem Holds.evaluateReorgAt_contest (holds : chain.Holds (exactRelation P) full)
    (tracked : chain.Tracked) (accepts : Accepts P chain.network full) {keep : Nat}
    (held : chain.firstHeight ≤ keep) (inside : keep ≤ full.length) {blocks : List Block}
    (shared : blocks = (full.take keep).drop chain.firstHeight ++ suffix)
    (apart : ∀ theirs ∈ suffix.head?, ∀ ours ∈ (full.drop keep).head?,
      theirs.hash P ≠ ours.hash P)
    (starts : ∀ first ∈ blocks.head?, first.header.height.toNat = chain.firstHeight)
    (unpinned : assumeValidTo P chain.network blocks ≤ keep)
    (fits : keep + suffix.length < 2 ^ 64) :
    SameVerdict (Option.Rel fun last candidate => Alike last candidate ∧
        SameBase chain.replayStart candidate ∧
        candidate.blocks = (full.take keep).drop chain.firstHeight ++
          suffix.map chain.storedForm)
      (contest P chain.network full keep suffix nowUnix)
      (evaluateReorgAt chain.network chain.totalWork chain.hashChain chain.prunedBase blocks
        nowUnix) := by
  obtain ⟨mid, midFollows, midTracked, base, midBlocks, replayed⟩ :=
    holds.own_replayed tracked accepts held inside
  obtain ⟨startHeight, startWork⟩ := holds.prunedBase_start
  have describes := holds.follows.describes
  have whole : full.take chain.firstHeight ++ (full.take keep).drop chain.firstHeight =
      full.take keep := by
    have split := List.take_append_drop chain.firstHeight (full.take keep)
    rwa [List.take_take, min_eq_left held] at split
  have claimed : totalBlockWork (full.take chain.firstHeight) + totalBlockWork blocks =
      totalBlockWork (full.take keep ++ suffix) := by
    rw [← totalBlockWork_append, shared, ← List.append_assoc, whole]
  have common : commonPrefix P (chain.hashChain.drop chain.firstHeight) blocks =
      keep - chain.firstHeight := shared ▸ holds.commonPrefix_shared held inside apart
  have back : chain.firstHeight + (keep - chain.firstHeight) = keep := by omega
  have network : mid.network = chain.network := base.network.trans chain.replayStart_network
  cases blocks with
  | nil =>
      obtain ⟨-, rfl⟩ := List.append_eq_nil_iff.mp shared.symm
      rw [contest_nil]
      exact .none
  | cons first others =>
      have hashes : chain.hashChain.length = full.length := by
        rw [describes.hashChain_eq, List.length_map]
      have above : ¬full.length < chain.firstHeight := by omega
      simp only [evaluateReorgAt, startHeight, startWork, claimed, describes.work, common, back,
        starts first rfl, hashes, above, ne_eq, not_true_eq_false, if_false, contest]
      by_cases lighter : totalBlockWork (full.take keep ++ suffix) ≤ totalBlockWork full
      · rw [if_pos lighter, if_pos lighter]
        exact .none
      rw [if_neg lighter, if_neg lighter]
      by_cases deep : full.length - keep > maxReorgDepth
      · rw [if_pos deep, if_pos deep]
        rfl
      · have nonempty : suffix ≠ [] := by
          rintro rfl
          rw [List.append_nil] at lighter
          exact lighter (totalBlockWork_take_le full keep)
        rw [if_neg deep, if_neg deep,
          holds.rebuildCandidate_eq inside midTracked midFollows
            (shared ▸ replayed nowUnix suffix) unpinned nonempty]
        have alike : Alike (standing P chain.network (full.take keep)) mid :=
          network ▸ (alike_of_follows midFollows).symm
        have same := @Alike.applyAll _ _ _ nowUnix alike (tracks_standing _ _) suffix
        refine same.lift ?_
        rintro last candidate reached ⟨alikeLast, -, extended⟩
        have follows := (midFollows.applyAll midTracked reached (by
          rw [List.length_take, min_eq_left inside]
          exact fits)).1
        have heavier : candidate.totalWork > totalBlockWork full := by
          rw [follows.describes.work, totalBlockWork_append, totalBlockWork_storedForm,
            ← totalBlockWork_append]
          exact Nat.not_le.mp lighter
        refine ⟨candidate, ?_, alikeLast, ?_, ?_⟩
        · rw [bind_of_passed (verifySupply_of_applyAll midTracked reached nonempty),
            if_pos heavier]
        · exact ⟨extended.base.network.trans base.network,
            extended.base.firstHeight.trans base.firstHeight,
            extended.base.horizon.trans base.horizon,
            extended.base.horizonWork.trans base.horizonWork⟩
        · rw [extended.blocks, midBlocks, storedForm_of_network_eq network]

/-- What a trial needs. -/
theorem Holds.rewind_of_prepared (holds : chain.Holds (exactRelation P) full)
    {ancestorHeight : Nat} {trial : SuffixTrial P}
    (prepared : chain.prepareSuffixTrial ancestorHeight = .ok trial) :
    ancestorHeight < full.length ∧ full.length - (ancestorHeight + 1) ≤ maxReorgDepth ∧
      full.length - (ancestorHeight + 1) ≤ chain.undos.length := by
  have describes := holds.follows.describes
  simp only [Chain.prepareSuffixTrial, Guard.bind_eq_ok, Guard.refuse_eq_ok,
    describes.tipHeight_toNat, describes.headers, List.length_map] at prepared
  obtain ⟨_, _, _, shallow, _, below, _⟩ := prepared
  omega

/-- What a verified suffix has to say about the chain of its branch. -/
structure Splices (chain : Chain P) (full : List Block) (keep : Nat) (suffix : List Block)
    (last : Chain P) (reorg : SuffixReorg P) : Prop where
  ledger : reorg.ledger = last.ledger
  headers : reorg.headers = last.headers
  totalWork : reorg.totalWork = last.totalWork
  bodies : reorg.suffix = suffix.map chain.storedForm
  rewind : full.length = keep + reorg.rewind
  basedOn : reorg.basedOn = chain.tipHash
  heavier : totalBlockWork full < reorg.totalWork
  describes : reorg.headers =
    (full.take keep ++ suffix.map chain.storedForm).map (CompactHeader.fromBlock P)

/-- A suffix that is verified on a trial decides the contest. -/
theorem Holds.finishSuffix_contest (holds : chain.Holds (exactRelation P) full)
    (tracked : chain.Tracked) {ancestorHeight : Nat} {trial : SuffixTrial P}
    (prepared : chain.prepareSuffixTrial ancestorHeight = .ok trial)
    (fits : ancestorHeight + 1 + suffix.length < 2 ^ 64) :
    SameVerdict (Option.Rel (Splices chain full (ancestorHeight + 1) suffix))
      (contest P chain.network full (ancestorHeight + 1) suffix nowUnix)
      (finishSuffix trial suffix nowUnix) := by
  have trialFollows : TrialFollows (exactRelation P) Set.univ chain.network trial full
      (ancestorHeight + 1) :=
    holds.prepareSuffixTrial tracked (fun _ _ => Set.mem_univ _) prepared
  have follows := trialFollows.follows
  have describes := follows.describes
  have length := trialFollows.length
  have front : (full.take (ancestorHeight + 1)).length = ancestorHeight + 1 := by
    rw [List.length_take]
    omega
  unfold finishSuffix
  by_cases empty : suffix = []
  · rw [if_pos empty, empty, contest_nil]
    exact .none
  have claimed : Machine.saturatingAdd128 trial.trial.totalWork (totalBlockWork suffix) =
      totalBlockWork (full.take (ancestorHeight + 1) ++ suffix) := by
    have bounded := @totalBlockWork_lt (full.take (ancestorHeight + 1) ++ suffix) (by
      rw [List.length_append, front]
      exact fits)
    rw [totalBlockWork_append] at bounded ⊢
    rw [describes.work, Machine.saturatingAdd128_of_lt bounded]
  have shallow : ¬full.length - (ancestorHeight + 1) > maxReorgDepth :=
    Nat.not_lt.mpr (holds.rewind_of_prepared prepared).2.1
  rw [if_neg empty, claimed, trialFollows.ourWork, contest]
  by_cases lighter : totalBlockWork (full.take (ancestorHeight + 1) ++ suffix) ≤
      totalBlockWork full
  · rw [if_pos lighter, if_pos lighter]
    exact .none
  rw [if_neg lighter, if_neg lighter, if_neg shallow]
  have alike : Alike (standing P chain.network (full.take (ancestorHeight + 1))) trial.trial :=
    trialFollows.sameNetwork ▸ (alike_of_follows follows).symm
  have same := @Alike.applyAll _ _ _ nowUnix alike (tracks_standing _ _) suffix
  refine same.lift ?_
  rintro last verified reached ⟨alikeLast, -, extended⟩
  have continues := (follows.applyAll trialFollows.tracked reached (by rwa [front])).1
  have heavier : totalBlockWork full < verified.totalWork := by
    rw [continues.describes.work, totalBlockWork_append, totalBlockWork_storedForm,
      ← totalBlockWork_append]
    exact Nat.not_le.mp lighter
  have bare : trial.trial.blocks = [] := by
    rw [describes.blocks, List.drop_of_length_le front.le]
  refine ⟨_, by rw [if_neg (Nat.not_le.mpr heavier)], ?_⟩
  exact {
    ledger := alikeLast.ledger.symm
    headers := alikeLast.headers.symm
    totalWork := alikeLast.totalWork.symm
    bodies := by
      rw [extended.blocks, bare, List.nil_append,
        storedForm_of_network_eq trialFollows.sameNetwork]
    rewind := length
    basedOn := trialFollows.basedOn.trans holds.follows.describes.tipHash_eq.symm
    heavier := heavier
    describes := by
      rw [continues.describes.headers, storedForm_of_network_eq trialFollows.sameNetwork] }


/-! ## The two ways agree -/

/-- Two chains on the same branch, with the same bodies; the undo windows may differ. -/
structure SameBranch (left right : Chain P) : Prop where
  network : left.network = right.network
  headers : left.headers = right.headers
  blocks : left.blocks = right.blocks
  firstHeight : left.firstHeight = right.firstHeight
  ledger : left.ledger = right.ledger
  totalWork : left.totalWork = right.totalWork
  tipHash : left.tipHash = right.tipHash
  prunedBase : left.prunedBase = right.prunedBase

/-- The candidate that offers our bodies and the suffix is rejected with the same error as
the suffix alone, loses when the suffix loses, and else both lead to the same branch. -/
structure ReorgPathsAgree (chain : Chain P) (trial : SuffixTrial P) (bodies suffix : List Block)
    (nowUnix : UInt64) : Prop where
  rejected : ∀ error, finishSuffix trial suffix nowUnix = .error error →
    chain.maybeReorgTo (bodies ++ suffix) nowUnix = (.error error, chain)
  lost : finishSuffix trial suffix nowUnix = .ok none →
    chain.maybeReorgTo (bodies ++ suffix) nowUnix = (.ok false, chain)
  adopted : ∀ reorg, finishSuffix trial suffix nowUnix = .ok (some reorg) →
    ∃ spliced rebuilt, chain.spliceSuffix reorg = (true, spliced) ∧
      chain.maybeReorgTo (bodies ++ suffix) nowUnix = (.ok true, rebuilt) ∧
      spliced.SameBranch rebuilt

/-- The bodies that are held up to a height. -/
theorem Holds.bodiesThrough_eq_some (holds : chain.Holds (exactRelation P) full)
    {height : Nat} {bodies : List Block} (inside : height < full.length)
    (held : chain.bodiesThrough height = some bodies) :
    chain.firstHeight ≤ height + 1 ∧
      bodies = (full.take (height + 1)).drop chain.firstHeight := by
  unfold bodiesThrough at held
  rw [holds.follows.describes.blocks] at held
  split at held
  · next archive =>
      rw [archive, List.drop_zero] at held ⊢
      exact ⟨Nat.zero_le _, (Option.some.inj held).symm⟩
  · next pruned =>
      simp only [List.length_drop] at held
      split at held
      · contradiction
      split at held
      · next before =>
          obtain rfl := Option.some.inj held
          refine ⟨by omega, (List.drop_of_length_le ?_).symm⟩
          rw [List.length_take]
          omega
      split at held
      · contradiction
      · obtain rfl := Option.some.inj held
        refine ⟨by omega, ?_⟩
        rw [List.drop_take]
        congr 1
        omega

/-- Blocks behind a position do not change the headers below it. -/
theorem take_headers {keep first : Nat} (held : first ≤ keep) (inside : keep ≤ full.length)
    (tail : List Block) : ((full.take keep ++ tail).map (CompactHeader.fromBlock P)).take first =
      (full.map (CompactHeader.fromBlock P)).take first := by
  have front : first ≤ (full.take keep).length := by
    rw [List.length_take, min_eq_left inside]
    exact held
  rw [← List.map_take, ← List.map_take, List.take_append_of_le_length front, List.take_take,
    min_eq_left held]

/-- A candidate that is rebuilt from our bodies keeps our pruned base. -/
theorem Holds.prunedBase_of_sameBase (holds : chain.Holds (exactRelation P) full)
    {candidate : Chain P} (base : SameBase chain.replayStart candidate) {keep : Nat}
    (held : chain.firstHeight ≤ keep) (inside : keep ≤ full.length) {tail : List Block}
    (headers : candidate.headers = (full.take keep ++ tail).map (CompactHeader.fromBlock P)) :
    candidate.prunedBase = chain.prunedBase := by
  obtain ⟨first, start⟩ := holds.replayStart
  have sameFirst : candidate.firstHeight = chain.firstHeight := base.firstHeight.trans first
  by_cases archive : chain.firstHeight = 0
  · unfold prunedBase
    rw [if_pos archive, if_pos (sameFirst.trans archive)]
  cases found : chain.horizon with
  | none => exact absurd (holds.archive found) archive
  | some horizon =>
      obtain ⟨rfl, work⟩ := holds.horizon horizon found
      have ours : chain.prunedBase = some {
          firstHeight := chain.firstHeight
          horizon := replay P chain.network (full.take chain.firstHeight)
          horizonWork := chain.horizonWork
          headers := chain.headers.take chain.firstHeight } := by
        rw [prunedBase, if_neg archive, found]
        rfl
      have sameHorizon : (replay P chain.network (full.take chain.firstHeight)).withBindingHeight
          chain.network.bindingForkHeight =
            replay P chain.network (full.take chain.firstHeight) := by
        unfold LedgerState.withBindingHeight
        rw [← replay_bindingHeight chain.network (full.take chain.firstHeight)]
      have horizon := base.horizon
      have horizonWork := base.horizonWork
      rw [Chain.replayStart, ours] at horizon horizonWork
      simp only [Chain.fromPrunedBase, sameHorizon] at horizon horizonWork
      rw [prunedBase, sameFirst, if_neg archive, horizon, ours, horizonWork, headers,
        take_headers held inside, holds.follows.describes.headers]
      rfl

/-- A verified suffix of the current branch is spliced. -/
theorem Holds.spliced (holds : chain.Holds (exactRelation P) full) {keep : Nat}
    (held : chain.firstHeight ≤ keep) (inside : keep ≤ full.length)
    (covered : full.length - keep ≤ chain.undos.length) {reorg : SuffixReorg P}
    (splices : Splices chain full keep suffix last reorg) :
    ∃ spliced, chain.spliceSuffix reorg = (true, spliced) ∧
      spliced.network = chain.network ∧ spliced.firstHeight = chain.firstHeight ∧
      spliced.headers = last.headers ∧ spliced.ledger = last.ledger ∧
      spliced.totalWork = last.totalWork ∧ spliced.prunedBase = chain.prunedBase ∧
      spliced.blocks = (full.take keep).drop chain.firstHeight ++ suffix.map chain.storedForm := by
  have describes := holds.follows.describes
  have length := splices.rewind
  have blocks : chain.blocks.length = full.length - chain.firstHeight := by
    rw [describes.blocks, List.length_drop]
  have current : ¬(chain.tipHash ≠ reorg.basedOn ∨ reorg.totalWork ≤ chain.totalWork) := by
    rw [splices.basedOn, describes.work]
    have := splices.heavier
    simpa using this
  have reaches : ¬(reorg.rewind > chain.blocks.length ∨ reorg.rewind > chain.undos.length) := by
    omega
  rw [Chain.spliceSuffix, if_neg current, if_neg reaches]
  refine ⟨_, rfl, rfl, rfl, splices.headers, splices.ledger, splices.totalWork, ?_, ?_⟩
  · unfold prunedBase
    simp only [splices.describes, take_headers held inside, describes.headers]
  · have count : chain.blocks.length - reorg.rewind = keep - chain.firstHeight := by omega
    rw [splices.bodies]
    simp only [count]
    rw [describes.blocks, List.drop_take]

/-- For every branch that leaves our history inside the undo window, the suffix path and the
full rebuild agree. -/
theorem Holds.reorgPathsAgree (holds : chain.Holds (exactRelation P) full)
    (tracked : chain.Tracked) (accepts : Accepts P chain.network full) {ancestorHeight : Nat}
    {trial : SuffixTrial P} {bodies : List Block}
    (prepared : chain.prepareSuffixTrial ancestorHeight = .ok trial)
    (held : chain.bodiesThrough ancestorHeight = some bodies)
    (apart : ∀ theirs ∈ suffix.head?, chain.hashAt (ancestorHeight + 1) ≠ some (theirs.hash P))
    (starts : ∀ first ∈ (bodies ++ suffix).head?,
      first.header.height.toNat = chain.firstHeight)
    (unpinned : assumeValidTo P chain.network (bodies ++ suffix) ≤ ancestorHeight + 1)
    (fits : ancestorHeight + 1 + suffix.length < 2 ^ 64) :
    chain.ReorgPathsAgree trial bodies suffix nowUnix := by
  have describes := holds.follows.describes
  obtain ⟨below, -, covered⟩ := holds.rewind_of_prepared prepared
  obtain ⟨first, rfl⟩ := holds.bodiesThrough_eq_some below held
  have away := holds.apart_of_hashAt apart
  have byTrial := @Holds.finishSuffix_contest _ _ nowUnix _ suffix holds tracked _ _ prepared fits
  have byCandidate := @Holds.evaluateReorgAt_contest _ _ nowUnix _ suffix holds tracked accepts
    _ first below _ rfl away starts unpinned fits
  rcases byTrial.cases with ⟨error, judged, finished⟩ | ⟨judged, finished⟩ |
    ⟨last, reorg, judged, finished, splices⟩
  · have evaluated := byCandidate.of_error judged
    refine ⟨?_, fun lost => ?_, fun reorg won => ?_⟩
    · rintro other reason
      rw [finished] at reason
      rw [Chain.maybeReorgTo, evaluated, Except.error.inj reason]
    · rw [finished] at lost
      cases lost
    · rw [finished] at won
      cases won
  · have evaluated := byCandidate.of_none judged
    refine ⟨fun error reason => ?_, fun _ => ?_, fun reorg won => ?_⟩
    · rw [finished] at reason
      cases reason
    · rw [Chain.maybeReorgTo, evaluated]
    · rw [finished] at won
      cases won
  · obtain ⟨candidate, evaluated, alike, base, blocks⟩ := byCandidate.of_some judged
    refine ⟨fun error reason => ?_, fun lost => ?_, fun other won => ?_⟩
    · rw [finished] at reason
      cases reason
    · rw [finished] at lost
      cases lost
    · obtain rfl := Option.some.inj (Except.ok.inj (finished.symm.trans won))
      obtain ⟨spliced, taken, network, firstHeight, headers, ledger, work, pruned, kept⟩ :=
        holds.spliced first below covered splices
      have describesLast : candidate.headers = (full.take (ancestorHeight + 1) ++
          suffix.map chain.storedForm).map (CompactHeader.fromBlock P) := by
        rw [← alike.headers, ← splices.headers, splices.describes]
      have nonempty : spliced.headers ≠ [] := by
        rw [headers, alike.headers, describesLast]
        apply List.ne_nil_of_length_pos
        rw [List.length_map, List.length_append, List.length_take]
        omega
      have heavier : candidate.totalWork > chain.totalWork := by
        rw [← alike.totalWork, ← splices.totalWork, describes.work]
        exact splices.heavier
      have both : Alike spliced candidate := {
        network := network.trans (base.network.trans chain.replayStart_network).symm
        ledger := ledger.trans alike.ledger
        headers := headers.trans alike.headers
        totalWork := work.trans alike.totalWork
        bare := fun none => absurd none nonempty }
      refine ⟨spliced, candidate, taken, ?_, ?_⟩
      · rw [Chain.maybeReorgTo, evaluated]
        simp only [adoptReorg, if_pos heavier]
      · exact {
          network := both.network
          headers := both.headers
          blocks := kept.trans blocks.symm
          firstHeight := firstHeight.trans (base.firstHeight.trans holds.replayStart.1).symm
          ledger := both.ledger
          totalWork := both.totalWork
          tipHash := both.tipHash
          prunedBase := pruned.trans
            (holds.prunedBase_of_sameBase base first below describesLast).symm }

end Judging

end Chain

end Nightfall
