import Nightfall.Consensus.Clock
import Nightfall.Sample

/-!
# Trusted replay ends where full validation ended

Two functions move a ledger over a body: `applyBlock` checks everything, and
`applyBlockStateOnly` recomputes the state of a body that was checked before.  On an
accepted body they agree, so a restart, the prefix of a reorg and a prune horizon all
reach the ledger of the node that validated the chain live.
-/

namespace Nightfall

variable {P : Primitives}

/-! ## One body -/

/-- A body without binding fields is its own stripped form. -/
theorem BlockBody.stripBinding_of_not_hasAnyBinding {body : BlockBody}
    (unbound : body.hasAnyBinding = false) : body.stripBinding = body := by
  obtain ⟨inputs, outputs, kernels, stealthOffset, kernelOffset⟩ := body
  simp only [hasAnyBinding, Bool.or_eq_false_iff, Option.isSome_eq_false_iff,
    Option.isNone_iff_eq_none, List.any_eq_false] at unbound
  obtain ⟨⟨⟨noStealth, noOffset⟩, noInput⟩, noKernel⟩ := unbound
  have sameInputs : inputs.map Input.stripBinding = inputs := by
    conv_rhs => rw [← List.map_id inputs]
    apply List.map_congr_left
    intro input member
    have plain := noInput input member
    obtain ⟨commit, sig, inputKey, keySig⟩ := input
    simp only [Input.hasBinding, Bool.or_eq_true, Option.isSome_iff_ne_none, not_or,
      not_not] at plain
    simp [Input.stripBinding, plain]
  have sameKernels : kernels.map TxKernel.stripBinding = kernels := by
    conv_rhs => rw [← List.map_id kernels]
    apply List.map_congr_left
    intro kernel member
    have plain := noKernel kernel member
    cases kernel
    simp only [Bool.or_eq_true, Option.isSome_iff_ne_none, not_or, not_not] at plain
    simp [TxKernel.stripBinding, plain]
  simp [stripBinding, sameInputs, sameKernels, noStealth, noOffset]

/-- The body that validation sees is the one the callers of a replay hand over. -/
theorem LedgerState.visibleBody_eq (state : LedgerState P) (body : BlockBody)
    (height : UInt64) :
    state.visibleBody body height =
      if state.bindingActive height then body else body.stripBinding := by
  unfold visibleBody
  cases state.bindingActive height with
  | true => simp
  | false =>
      cases bound : body.hasAnyBinding with
      | true => simp
      | false => simp [BlockBody.stripBinding_of_not_hasAnyBinding bound]

/-- What full validation commits, a replay of the visible body commits too. -/
theorem LedgerState.replay_of_applyBlock {state next : LedgerState P} {body : BlockBody}
    {height expectedReward : UInt64} {ctx : Bytes}
    (applied : state.applyBlock body height expectedReward ctx = (.ok (), next)) :
    state.applyBlockStateOnly (state.visibleBody body height) height expectedReward =
      (.ok (), next) := by
  simp only [applyBlock] at applied
  split at applied
  · simp at applied
  · next staged validated =>
      obtain ⟨coinbase, offset, valid⟩ := validate_eq_ok.mp validated
      split at applied
      · simp at applied
      · rw [← (Prod.mk.inj applied).2]
        exact applyBlockStateOnly_of_valid valid visibleBody_kernelOffset

theorem LedgerState.verifySupply_of_applyBlock {ledger next : LedgerState P} {body : BlockBody}
    {height expectedReward : UInt64} {ctx : Bytes}
    (applied : ledger.applyBlock body height expectedReward ctx = (.ok (), next)) :
    next.verifySupply = .ok () := by
  simp only [applyBlock] at applied
  split at applied
  · simp at applied
  · split at applied
    · simp at applied
    · next passed =>
        obtain rfl := congrArg Prod.snd applied
        exact passed

/-! ## One block -/

namespace Chain

variable {chain next mid last : Chain P} {block : Block} {nowUnix later : UInt64}

theorem storedForm_of_stored
    (stored : ¬block.header.height ≥ chain.network.bindingForkHeight →
      block.stripBinding = block) : chain.storedForm block = block := by
  unfold storedForm bindingActiveAt
  by_cases active : block.header.height ≥ chain.network.bindingForkHeight
  · simp [active]
  · simp [active, stored active]

/-- The stored form is kept as it is. -/
theorem storedForm_storedForm (chain : Chain P) (block : Block) :
    chain.storedForm (chain.storedForm block) = chain.storedForm block :=
  storedForm_of_stored (chain.storedForm_stored block)

theorem checkTipRoots_eq_ok {chain : Chain P} : chain.checkTipRoots = .ok () ↔
    ∀ tip, chain.blocks.getLast? = some tip → chain.ledger.utxoRoot = tip.header.utxoRoot ∧
      chain.ledger.kernelSum = tip.header.kernelSum := by
  unfold checkTipRoots
  cases chain.blocks.getLast? with
  | none => simp
  | some tip => simp

/-- An accepted block leaves the roots of its header and a supply that adds up. -/
theorem tip_of_accepted (tracks : chain.ledger.utxos.Tracks)
    (accepted : chain.applyBlockInner block nowUnix verifyPow = (.ok (), next)) :
    next.checkTipRoots = .ok () ∧ next.verifySupply = .ok () := by
  rw [applyBlockInner_eq tracks, settle_eq_ok] at accepted
  obtain ⟨ledger, undo, judged, rfl⟩ := accepted
  have valid := verdict_eq_ok.mp judged
  constructor
  · rw [checkTipRoots_eq_ok]
    intro tip last
    rw [extend_blocks, List.getLast?_concat] at last
    rw [← Option.some.inj last]
    exact ⟨valid.utxoRoot, valid.kernelSum⟩
  · rw [verifySupply, extend_ledger, LedgerState.verifySupply_of_applyBlock valid.applied]
    rfl

/-- The ledger of a chain switches to the binding rules where the network does, and has
the roots of the last header. -/
structure Settled (chain : Chain P) : Prop where
  tracked : chain.Tracked
  binding : chain.ledger.bindingHeight = chain.network.bindingForkHeight
  roots : chain.checkTipRoots = .ok ()

theorem settled_newFair (network : NetworkId) : (newFair P network).Settled :=
  ⟨tracked_newFair network, rfl, rfl⟩

/-- An accepted block is replayed by the trusted path to the very same chain. -/
theorem Settled.applyBlockFromOwnDisk (settled : chain.Settled)
    (accepted : chain.applyBlock block nowUnix = (.ok (), next)) :
    chain.applyBlockFromOwnDisk (chain.storedForm block) = (.ok (), next) := by
  rw [applyBlock_eq settled.tracked.ledger, settle_eq_ok] at accepted
  obtain ⟨ledger, undo, judged, rfl⟩ := accepted
  obtain ⟨checked, captured, applied, -, -⟩ := verdict_eq_ok.mp judged
  rw [applyBlockFromOwnDisk_eq, storedForm_storedForm, settle_eq_ok]
  refine ⟨ledger, undo, ownDiskVerdict_eq_ok.mpr ⟨?_, captured, ?_⟩, rfl⟩
  · obtain ⟨version, -, -, height, prevHash, pin, -⟩ := checkBlock_eq_ok.mp checked
    exact checkLinkage_eq_ok.mpr ⟨version, height, prevHash, pin⟩
  · have replayed := LedgerState.replay_of_applyBlock applied
    -- Below the fork the stored form has nothing left to hide.
    have visible : chain.ledger.visibleBody (chain.storedForm block).body
        (chain.storedForm block).header.height = (chain.storedForm block).body := by
      rw [LedgerState.visibleBody_eq, LedgerState.bindingActive, settled.binding]
      split
      · rfl
      · next below =>
          exact congrArg Block.body (chain.storedForm_stored block (by simpa using below))
    rwa [visible] at replayed

/-- An accepted block is accepted again in its stored form, at any later time. -/
theorem applyBlock_storedForm (accepted : chain.applyBlock block nowUnix = (.ok (), next))
    (after : nowUnix ≤ later) :
    chain.applyBlock (chain.storedForm block) later = (.ok (), next) := by
  have again := applyBlock_later accepted after
  unfold applyBlock applyBlockInner at again ⊢
  rwa [storedForm_storedForm]

/-- What an accepted block leaves behind. -/
theorem Settled.applyBlock (settled : chain.Settled)
    (accepted : chain.applyBlock block nowUnix = (.ok (), next)) :
    next.Settled ∧ next.network = chain.network ∧ next.horizon = chain.horizon ∧
      next.firstHeight = chain.firstHeight ∧
      next.blocks = chain.blocks ++ [chain.storedForm block] := by
  have tracked := settled.tracked.applyBlockInner block nowUnix true
  rw [← Chain.applyBlock, accepted] at tracked
  have roots := (tip_of_accepted settled.tracked.ledger accepted).1
  rw [applyBlock_eq settled.tracked.ledger, settle_eq_ok] at accepted
  obtain ⟨ledger, undo, judged, rfl⟩ := accepted
  have replayed := LedgerState.replay_of_applyBlock (verdict_eq_ok.mp judged).applied
  obtain ⟨staged, -, committed⟩ := LedgerState.applyBlockStateOnly_ok_iff.mp replayed
  refine ⟨⟨tracked, ?_, roots⟩, rfl, rfl, rfl, rfl⟩
  rw [extend_ledger, extend_network, committed, LedgerState.commit_bindingHeight]
  exact settled.binding

/-- The horizon that takes in an accepted block stands where the chain stands. -/
theorem Settled.advanceHorizon (settled : chain.Settled)
    (accepted : chain.applyBlock block nowUnix = (.ok (), next)) :
    Chain.advanceHorizon (chain.ledger, chain.totalWork) [chain.storedForm block] =
      (.ok (), (next.ledger, next.totalWork)) := by
  have replayed := settled.applyBlockFromOwnDisk accepted
  rw [applyBlockFromOwnDisk_eq, storedForm_storedForm, settle_eq_ok] at replayed
  obtain ⟨ledger, undo, judged, rfl⟩ := replayed
  simp only [Chain.advanceHorizon, (ownDiskVerdict_eq_ok.mp judged).applied, extend_ledger,
    extend_totalWork]

/-! ## A whole run -/

/-- Offer blocks in turn, each at its own moment, to full validation. -/
def offerAll : Chain P → List (Block × UInt64) → Except ConsensusError (Chain P)
  | chain, [] => .ok chain
  | chain, (block, moment) :: rest => do
      let next ← Guard.toExcept (chain.applyBlock block moment)
      offerAll next rest

theorem offerAll_cons_eq_ok {moment : UInt64} {rest : List (Block × UInt64)} :
    chain.offerAll ((block, moment) :: rest) = .ok last ↔
      ∃ next, chain.applyBlock block moment = (.ok (), next) ∧ next.offerAll rest = .ok last := by
  simp only [offerAll, Guard.bind_eq_ok, Guard.toExcept_eq_ok]

theorem advanceHorizon_append {reached middle : LedgerState P × Nat} {first : List Block}
    (advanced : Chain.advanceHorizon reached first = (.ok (), middle)) (rest : List Block) :
    Chain.advanceHorizon reached (first ++ rest) = Chain.advanceHorizon middle rest := by
  induction first generalizing reached with
  | nil =>
      obtain rfl := (Prod.mk.inj advanced).2
      rfl
  | cons block others ih =>
      obtain ⟨horizon, work⟩ := reached
      simp only [List.cons_append, Chain.advanceHorizon] at advanced ⊢
      split at advanced
      · simp at advanced
      · next next applied =>
          exact ih advanced

/-- What a run of accepted blocks leaves behind, and where the horizon over them stands. -/
theorem Settled.offerAll {offers : List (Block × UInt64)} (settled : chain.Settled)
    (reached : chain.offerAll offers = .ok last) :
    last.Settled ∧ last.network = chain.network ∧ last.horizon = chain.horizon ∧
      last.firstHeight = chain.firstHeight ∧
      ∃ kept, last.blocks = chain.blocks ++ kept ∧ kept.length = offers.length ∧
        Chain.advanceHorizon (chain.ledger, chain.totalWork) kept =
          (.ok (), (last.ledger, last.totalWork)) := by
  induction offers generalizing chain with
  | nil =>
      obtain rfl := Except.ok.inj reached
      exact ⟨settled, rfl, rfl, rfl, [], (List.append_nil _).symm, rfl, rfl⟩
  | cons offer rest ih =>
      obtain ⟨block, moment⟩ := offer
      obtain ⟨next, accepted, reachedRest⟩ := offerAll_cons_eq_ok.mp reached
      obtain ⟨settledNext, network, horizon, first, blocks⟩ := settled.applyBlock accepted
      obtain ⟨settledLast, sameNetwork, sameHorizon, sameFirst, kept, grown, length, advanced⟩ :=
        ih settledNext reachedRest
      refine ⟨settledLast, sameNetwork.trans network, sameHorizon.trans horizon,
        sameFirst.trans first, chain.storedForm block :: kept, ?_, ?_, ?_⟩
      · rw [grown, blocks, List.append_assoc]
        rfl
      · rw [List.length_cons, List.length_cons, length]
      · rw [← advanced]
        exact advanceHorizon_append (settled.advanceHorizon accepted) kept

/-- Replaying the kept blocks of a run, some leading ones on trust, rebuilds its chain. -/
theorem Settled.replayFrom {offers : List (Block × UInt64)} {trustedPrefix index : Nat}
    {kept : List Block} (settled : chain.Settled)
    (reached : chain.offerAll offers = .ok last) (blocks : last.blocks = chain.blocks ++ kept)
    (times : ∀ offer ∈ offers.drop (trustedPrefix - index), offer.2 ≤ later) :
    Chain.replayFrom trustedPrefix later index chain kept = .ok last := by
  induction offers generalizing chain index kept with
  | nil =>
      obtain rfl := Except.ok.inj reached
      obtain rfl : kept = [] := by simpa using blocks
      rfl
  | cons offer rest ih =>
      obtain ⟨block, moment⟩ := offer
      obtain ⟨next, accepted, reachedRest⟩ := offerAll_cons_eq_ok.mp reached
      obtain ⟨settledNext, -, -, -, grownNext⟩ := settled.applyBlock accepted
      obtain ⟨-, -, -, -, others, grown, -⟩ := settledNext.offerAll reachedRest
      have shape : kept = chain.storedForm block :: others := by
        rw [grown, grownNext, List.append_assoc, List.append_cancel_left_eq] at blocks
        exact blocks.symm
      subst shape
      have timesRest : ∀ offer ∈ rest.drop (trustedPrefix - (index + 1)), offer.2 ≤ later := by
        intro offer member
        apply times offer
        by_cases trusted : index < trustedPrefix
        · have one : trustedPrefix - index = trustedPrefix - (index + 1) + 1 := by omega
          rw [one, List.drop_succ_cons]
          exact member
        · rw [Nat.sub_eq_zero_of_le (by omega), List.drop_zero]
          exact List.mem_cons_of_mem _ (List.mem_of_mem_drop member)
      have replayedRest := ih settledNext reachedRest grown timesRest
      simp only [Chain.replayFrom]
      split
      · simp only [Guard.bind_eq_ok, Guard.toExcept_eq_ok]
        exact ⟨next, settled.applyBlockFromOwnDisk accepted, replayedRest⟩
      · next past =>
          have early : moment ≤ later := by
            apply times (block, moment)
            rw [Nat.sub_eq_zero_of_le (by omega), List.drop_zero]
            exact List.mem_cons_self
          simp only [Guard.bind_eq_ok, Guard.onlyIf_eq_ok, Guard.toExcept_eq_ok]
          exact ⟨(), fun _ => settled.roots, next, applyBlock_storedForm accepted early, replayedRest⟩

/-- Without a trusted prefix every block is validated again. -/
theorem replayFrom_zero (nowUnix : UInt64) (index : Nat) (chain : Chain P)
    (blocks : List Block) :
    Chain.replayFrom 0 nowUnix index chain blocks = Chain.applyAll nowUnix chain blocks := by
  induction blocks generalizing index chain with
  | nil => rfl
  | cons block rest ih =>
      simp only [Chain.replayFrom, Chain.applyAll, Nat.not_lt_zero, if_false, ih]
      simp [Guard.onlyIf]
      rfl

theorem offerAll_append {first rest : List (Block × UInt64)}
    (reached : chain.offerAll first = .ok mid) (continued : mid.offerAll rest = .ok last) :
    chain.offerAll (first ++ rest) = .ok last := by
  induction first generalizing chain with
  | nil =>
      obtain rfl := Except.ok.inj reached
      exact continued
  | cons offer others ih =>
      obtain ⟨block, moment⟩ := offer
      obtain ⟨next, accepted, reachedRest⟩ := offerAll_cons_eq_ok.mp reached
      exact offerAll_cons_eq_ok.mpr ⟨next, accepted, ih reachedRest⟩

/-- A prune of the blocks before a point of the run puts the horizon at that point. -/
theorem pruneKeep_of_offerAll {network : NetworkId} {first rest : List (Block × UInt64)}
    (reached : (newFair P network).offerAll first = .ok mid)
    (continued : mid.offerAll rest = .ok last) (someFirst : first ≠ []) (someRest : rest ≠ []) :
    ∃ pruned, last.pruneKeep rest.length = (.ok first.length, pruned) ∧
      pruned.horizon = some mid.ledger ∧ pruned.horizonWork = mid.totalWork ∧
      pruned.ledger = last.ledger := by
  obtain ⟨settledMid, networkMid, horizonMid, -, dropped, grownMid, lengthMid, advanced⟩ :=
    (settled_newFair network).offerAll reached
  obtain ⟨-, networkLast, horizonLast, -, kept, grown, length, -⟩ :=
    settledMid.offerAll continued
  have blocks : last.blocks = dropped ++ kept := by
    rw [grown, grownMid]
    rfl
  have start : last.horizonStart = ((newFair P network).ledger, (newFair P network).totalWork) := by
    have none : last.horizon = none := horizonLast.trans horizonMid
    rw [horizonStart, none, networkLast, networkMid]
    rfl
  have firstPos := List.length_pos_iff.mpr someFirst
  have restPos := List.length_pos_iff.mpr someRest
  have total : last.blocks.length = first.length + rest.length := by
    rw [blocks, List.length_append, lengthMid, length]
  have keep : max rest.length 1 = rest.length := by omega
  have drop : last.blocks.length - rest.length = dropped.length := by omega
  have prefix' : last.blocks.take dropped.length = dropped := by
    rw [blocks, List.take_left]
  simp only [pruneKeep, keep, drop, prefix', start, advanced]
  rw [if_neg (by omega), lengthMid]
  exact ⟨_, rfl, rfl, rfl, rfl⟩

/-- Offering one block that is accepted. -/
theorem offerAll_singleton (accepted : (chain.applyBlock block nowUnix).1 = .ok ()) :
    chain.offerAll [(block, nowUnix)] = .ok (chain.applyBlock block nowUnix).2 :=
  offerAll_cons_eq_ok.mpr ⟨_, Prod.ext accepted rfl, rfl⟩

/-- Replay on trust ends where full validation ended: body by body, and over a chain that
was accepted from genesis, whether its own file is replayed, a horizon is built over its
first blocks or some or all of it is validated again. -/
theorem trusted_replay_agrees :
    (∀ (state next : LedgerState P) (body : BlockBody) (height expectedReward : UInt64)
      (ctx : Bytes), state.applyBlock body height expectedReward ctx = (.ok (), next) →
      state.applyBlockStateOnly
        (if state.bindingActive height then body else body.stripBinding) height
        expectedReward = (.ok (), next)) ∧
    ∀ (network : NetworkId) (first rest : List (Block × UInt64)) (mid last : Chain P),
      (newFair P network).offerAll first = .ok mid → mid.offerAll rest = .ok last →
      (first ≠ [] → rest ≠ [] →
        ∃ pruned, last.pruneKeep rest.length = (.ok first.length, pruned) ∧
          pruned.horizon = some mid.ledger ∧ pruned.horizonWork = mid.totalWork ∧
          pruned.ledger = last.ledger) ∧
      ∀ later trustedPrefix,
        (∀ offer ∈ (first ++ rest).drop trustedPrefix, offer.2 ≤ later) →
        rebuildFromBlocksTrustedPrefix network last.blocks trustedPrefix later = .ok last ∧
        (trustedPrefix = 0 → applyAll later (newFair P network) last.blocks = .ok last) := by
  refine ⟨fun state next body height expectedReward ctx applied => ?_,
    fun network first rest mid last reached continued => ⟨fun someFirst someRest => ?_,
      fun later trustedPrefix times => ⟨?_, fun none => ?_⟩⟩⟩
  · rw [← LedgerState.visibleBody_eq]
    exact LedgerState.replay_of_applyBlock applied
  · exact pruneKeep_of_offerAll reached continued someFirst someRest
  · have run := offerAll_append reached continued
    have settled := (settled_newFair network).offerAll run
    simp only [rebuildFromBlocksTrustedPrefix, Guard.bind_eq_ok, Guard.onlyIf_eq_ok]
    refine ⟨last, (settled_newFair network).replayFrom run rfl fun offer member => ?_, (),
      fun _ => settled.1.roots, rfl⟩
    apply times offer
    exact List.drop_subset_drop_left _ (Nat.le_max_left _ _) member
  · have run := offerAll_append reached continued
    rw [← replayFrom_zero later 0]
    rw [none] at times
    exact (settled_newFair network).replayFrom run rfl times

open Sample in
/-- Two mined blocks, the first of them replayed on trust. -/
theorem trusted_replay_agrees_mined :
    rebuildFromBlocksTrustedPrefix .devnet chain2.blocks 1 now = .ok chain2 := by
  have accepted : ((newFair primitives .devnet).applyBlock block0 now).1 = .ok () ∧
      (chain1.applyBlock block1 now).1 = .ok () := by
    decide +kernel
  have agrees := trusted_replay_agrees.2 .devnet [(block0, now)] [(block1, now)] chain1 chain2
    (offerAll_singleton accepted.1) (offerAll_singleton accepted.2)
  exact (agrees.2 now 1 (by simp)).1

end Chain

end Nightfall
