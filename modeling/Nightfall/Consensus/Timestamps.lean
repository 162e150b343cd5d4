import Nightfall.Consensus.Steps
import Nightfall.Library.Median

/-!
# Time never runs backwards

Every block after the first is later than the median of the window before it, and so the
median never falls along a chain.  A template takes the first moment that the rule allows.
-/

namespace Nightfall

variable {P : Primitives}

/-! ## Timestamps of a chain -/

/-- Every timestamp but the first exceeds the median of the ones before it. -/
def TimesAdvance (times : List UInt64) : Prop :=
  Chained (fun before time => before ≠ [] → medianTimePast before < time) times

/-- The window whose median counts. -/
def timeWindow (times : List UInt64) : List UInt64 :=
  times.drop (times.length - min mtpWindow times.length)

theorem toNat_medianTimePast {times : List UInt64} (nonempty : times ≠ []) :
    (medianTimePast times).toNat = Median.upper ((timeWindow times).map UInt64.toNat) 0 := by
  have sorted : ((timeWindow times).insertionSort (· ≤ ·)).map UInt64.toNat =
      ((timeWindow times).map UInt64.toNat).insertionSort (· ≤ ·) :=
    List.map_insertionSort _ _ _ _ fun _ _ _ _ => UInt64.le_iff_toNat_le
  rw [medianTimePast, if_neg nonempty, Median.upper, ← sorted, List.length_map]
  exact (List.getD_map _ _ _).symm

theorem timeWindow_ne_nil {times : List UInt64} (nonempty : times ≠ []) :
    timeWindow times ≠ [] := by
  have positive := List.length_pos_iff.mpr nonempty
  apply List.ne_nil_of_length_pos
  rw [timeWindow, List.length_drop, mtpWindow]
  omega

/-- A timestamp that is not below the median does not lower it. -/
theorem medianTimePast_le_concat {times : List UInt64} {time : UInt64}
    (above : times ≠ [] → medianTimePast times ≤ time) :
    medianTimePast times ≤ medianTimePast (times ++ [time]) := by
  rw [UInt64.le_iff_toNat_le]
  by_cases nonempty : times = []
  · rw [nonempty]
    exact Nat.zero_le _
  · have positive := List.length_pos_iff.mpr nonempty
    have kept : timeWindow (times ++ [time]) =
        times.drop (times.length + 1 - min mtpWindow (times.length + 1)) ++ [time] := by
      rw [timeWindow, List.length_append, List.length_singleton,
        List.drop_append_of_le_length (by rw [mtpWindow]; omega)]
    have above := UInt64.le_iff_toNat_le.mp (above nonempty)
    rw [toNat_medianTimePast nonempty] at above ⊢
    rw [toNat_medianTimePast (by simp), kept, List.map_append]
    apply Median.upper_le_upper
    · simpa using timeWindow_ne_nil nonempty
    · rw [timeWindow]
      exact (List.drop_suffix_drop_left _ (by rw [mtpWindow]; omega)).map _
    · rw [timeWindow, List.length_map, List.length_map, List.length_drop, List.length_drop,
        mtpWindow]
      omega
    · exact above

/-- The median does not fall along an advancing list. -/
theorem TimesAdvance.median_mono {times : List UInt64} (advance : TimesAdvance times)
    {first later : Nat} (order : first ≤ later) (inside : later ≤ times.length) :
    medianTimePast (times.take first) ≤ medianTimePast (times.take later) := by
  induction later, order using Nat.le_induction with
  | base => exact UInt64.le_refl _
  | succ later _ ih =>
      have present := List.getElem?_eq_getElem (show later < times.length by omega)
      apply UInt64.le_trans (ih (by omega))
      rw [List.take_succ_eq_append_getElem (by omega)]
      apply medianTimePast_le_concat
      exact fun some => UInt64.le_of_lt (advance.at_index present some)

theorem TimesAdvance.concat {times : List UInt64} {time : UInt64} (advance : TimesAdvance times)
    (later : times ≠ [] → medianTimePast times < time) : TimesAdvance (times ++ [time]) :=
  Chained.concat advance later

/-! ## One operation -/

namespace Chain

variable {chain last : Chain P} {block : Block} {blocks : List Block} {nowUnix : UInt64}

/-- The timestamps of all headers. -/
def times (chain : Chain P) : List UInt64 :=
  chain.headers.map CompactHeader.timestampUnix

/-- The timestamp that `buildTemplate` gives a block. -/
def templateTimestamp (chain : Chain P) (timestampUnix : UInt64) : UInt64 :=
  let next := Machine.saturatingAdd chain.medianTimePast 1
  if timestampUnix ≤ next then next else timestampUnix

/-- The headers of a chain advance, and there is no body without a header. -/
structure Timed (chain : Chain P) : Prop where
  tracked : chain.Tracked
  advance : TimesAdvance chain.times
  whole : chain.headers = [] → chain.blocks = []

theorem timed_newFair (network : NetworkId) : (newFair P network).Timed where
  tracked := tracked_newFair network
  advance := Chained.nil _
  whole := fun _ => rfl

theorem Timed.medianTimePast_eq_times (timed : chain.Timed) :
    chain.medianTimePast = Nightfall.medianTimePast chain.times := by
  rw [medianTimePast, times]
  split
  · rfl
  next none =>
      rw [ne_eq, not_not] at none
      rw [none, timed.whole none, List.map_nil, List.map_nil]

theorem Timed.accepted {verifyPow : Bool} (timed : chain.Timed)
    (accepted : chain.applyBlockInner block nowUnix verifyPow = (.ok (), last)) : last.Timed := by
  have tracked := timed.tracked.applyBlockInner block nowUnix verifyPow
  rw [accepted] at tracked
  rw [applyBlockInner_eq timed.tracked.ledger, settle_eq_ok] at accepted
  obtain ⟨ledger, undo, judged, rfl⟩ := accepted
  have checked := checkBlock_eq_ok.mp (verdict_eq_ok.mp judged).checked
  have later := checked.2.2.2.2.2.2.2.1
  refine ⟨tracked, ?_, fun none => ?_⟩
  · have grown : (chain.extend (chain.storedForm block) ledger undo).times =
        chain.times ++ [(chain.storedForm block).header.timestampUnix] := by
      simp [times, CompactHeader.fromBlock]
    rw [grown]
    refine timed.advance.concat fun some => ?_
    have headers : chain.headers ≠ [] := fun none => some (by rw [times, none, List.map_nil])
    rw [← timed.medianTimePast_eq_times]
    apply later
    rw [blockCount, if_pos headers]
    exact List.length_pos_iff.mpr headers
  · simp at none

theorem Timed.applyBlockInner (timed : chain.Timed) (block : Block) (nowUnix : UInt64)
    (verifyPow : Bool) : (chain.applyBlockInner block nowUnix verifyPow).2.Timed := by
  cases outcome : chain.applyBlockInner block nowUnix verifyPow with
  | mk verdict next =>
      cases verdict with
      | ok done => exact timed.accepted outcome
      | error error =>
          rw [applyBlockInner_eq timed.tracked.ledger] at outcome
          have same := settle_atomic (congrArg Prod.fst outcome)
          rw [outcome] at same
          rw [show next = chain from same]
          exact timed

theorem Timed.applyAll (timed : chain.Timed)
    (reached : applyAll nowUnix chain blocks = .ok last) : last.Timed := by
  have kept (chain : Chain P) (block : Block) (next : Chain P) (before : chain.Timed)
      (accepted : chain.applyBlock block nowUnix = (.ok (), next)) : next.Timed :=
    before.accepted accepted
  exact applyAll_induction kept timed reached

theorem headers_applyAll (timed : chain.Timed)
    (reached : Chain.applyAll nowUnix chain blocks = .ok last) (some : chain.headers ≠ []) :
    last.headers ≠ [] := by
  let holds (current : Chain P) : Prop := current.Timed ∧ current.headers ≠ []
  have kept (current : Chain P) (block : Block) (next : Chain P) (before : holds current)
      (accepted : current.applyBlock block nowUnix = (.ok (), next)) : holds next := by
    refine ⟨before.1.accepted accepted, ?_⟩
    rw [applyBlock_eq before.1.tracked.ledger, settle_eq_ok] at accepted
    obtain ⟨ledger, undo, _, rfl⟩ := accepted
    simp
  exact (applyAll_induction kept ⟨timed, some⟩ reached).2

theorem timed_spliceSuffix {reorg : SuffixReorg P} (timed : chain.Timed)
    (tracks : reorg.ledger.utxos.Tracks) (some : reorg.headers ≠ [])
    (advance : TimesAdvance (reorg.headers.map CompactHeader.timestampUnix)) :
    (chain.spliceSuffix reorg).2.Timed := by
  have tracked := spliceSuffix_tracked timed.tracked tracks
  unfold spliceSuffix at tracked ⊢
  split
  · exact timed
  next current =>
      rw [if_neg current] at tracked
      split
      · exact timed
      next covered =>
          rw [if_neg covered] at tracked
          exact ⟨tracked, advance, fun none => absurd none some⟩

theorem Timed.pruneKeep (timed : chain.Timed) (keep : Nat) : (chain.pruneKeep keep).2.Timed := by
  have tracked := timed.tracked.pruneKeep keep
  unfold Chain.pruneKeep at tracked ⊢
  dsimp only at tracked ⊢
  split
  · exact timed
  next longer =>
      rw [if_neg longer] at tracked
      have whole (count : Nat) (none : chain.headers = []) : chain.blocks.drop count = [] := by
        rw [timed.whole none, List.drop_nil]
      split at tracked
      next error horizon work advanced =>
          exact ⟨tracked, timed.advance, timed.whole⟩
      next horizon work advanced =>
          exact ⟨tracked, timed.advance, whole _⟩

/-- A trial starts on headers of the chain. -/
theorem Timed.prepareSuffixTrial {ancestorHeight : Nat} {trial : SuffixTrial P}
    (timed : chain.Timed) (prepared : chain.prepareSuffixTrial ancestorHeight = .ok trial) :
    trial.trial.Timed ∧ trial.trial.headers ≠ [] := by
  have tracked := prepareSuffixTrial_tracks timed.tracked.ledger prepared
  simp only [Chain.prepareSuffixTrial, Guard.bind_eq_ok, Guard.refuse_eq_ok,
    Except.ok.injEq] at prepared
  obtain ⟨_, _, _, _, _, inside, _, _, _, _, rfl⟩ := prepared
  have some : chain.headers.take (ancestorHeight + 1) ≠ [] := by
    apply List.ne_nil_of_length_pos
    rw [List.length_take]
    omega
  refine ⟨⟨tracked, ?_, fun none => absurd none some⟩, some⟩
  rw [times, List.map_take]
  exact timed.advance.take _

/-- The first moment after the median is late enough. -/
theorem medianTimePast_lt_template {timestampUnix : UInt64}
    (below : chain.medianTimePast.toNat < 2 ^ 64 - 1) :
    chain.medianTimePast < chain.templateTimestamp timestampUnix := by
  have next := Machine.toNat_saturatingAdd chain.medianTimePast 1
  have least : Machine.saturatingAdd chain.medianTimePast 1 ≤
      chain.templateTimestamp timestampUnix := by
    rw [templateTimestamp]
    split
    · exact UInt64.le_refl _
    next above => exact UInt64.le_of_lt (UInt64.not_le.mp above)
  rw [UInt64.lt_iff_toNat_lt]
  rw [UInt64.le_iff_toNat_le, next] at least
  have one : (1 : UInt64).toNat = 1 := rfl
  omega

/-- A pin is never refused for a timestamp. -/
theorem pinned_of_checkPin {error : ConsensusError}
    (failed : checkPin (P := P) block = .error error) :
    ∃ pinned, error = .checkpointMismatch block.header.height pinned (block.hash P) := by
  unfold checkPin at failed
  split at failed
  · contradiction
  next pinned _ => exact ⟨pinned, (Guard.refuse_eq_error.mp failed).2.symm⟩

/-- The rules about timestamps pass a template, whatever else is wrong with the block. -/
theorem template_timely {timestampUnix : UInt64} {verifyPow : Bool}
    (below : chain.medianTimePast.toNat < 2 ^ 64 - 1)
    (stamped : block.header.timestampUnix = chain.templateTimestamp timestampUnix)
    (soon : chain.templateTimestamp timestampUnix ≤
      Machine.saturatingAdd nowUnix maxFutureDriftSecs) {error : ConsensusError}
    (failed : chain.checkBlock block nowUnix verifyPow = .error error) :
    error ≠ .timestampTooFarAhead ∧ error ≠ .timestampBeforeMedian := by
  have later : chain.medianTimePast < chain.templateTimestamp timestampUnix :=
    medianTimePast_lt_template below
  have notAhead : ¬(verifyPow = true ∧ block.header.timestampUnix >
      Machine.saturatingAdd nowUnix maxFutureDriftSecs) := by
    rw [stamped]
    exact fun ahead => UInt64.not_lt.mpr soon ahead.2
  have notBefore : ¬(chain.blockCount > 0 ∧ block.header.timestampUnix ≤ chain.medianTimePast) := by
    rw [stamped]
    exact fun before => UInt64.not_le.mpr later before.2
  simp only [checkBlock, Guard.bind_eq_error, Guard.refuse_eq_error, Guard.refuse_eq_ok,
    notAhead, notBefore, false_and, false_or, not_false_eq_true, true_and, exists_const] at failed
  rcases failed with ⟨_, rfl⟩ | ⟨_, ⟨_, rfl⟩ | ⟨_, ⟨_, rfl⟩ | ⟨_, ⟨_, rfl⟩ | ⟨_, ⟨_, rfl⟩ |
    ⟨_, unpinned | ⟨_, _, rest⟩⟩⟩⟩⟩⟩
  · simp
  · simp
  · simp
  · simp
  · simp
  · obtain ⟨pinned, rfl⟩ := pinned_of_checkPin unpinned
    simp
  · rcases rest with ⟨_, rfl⟩ | ⟨_, ⟨_, rfl⟩ | ⟨_, ⟨_, rfl⟩ | ⟨_, _, rfl⟩⟩⟩
    · simp
    · simp
    · simp
    · simp

end Chain

/-! ## Runs of a node -/

/-- The operation validates every block that it appends. -/
def Op.FullyChecked : Op → Bool
  | applyBlockFromOwnDisk _ => false
  | maybeReorgTo _ _ => false
  | _ => true

namespace Node

/-- The chain of a node advances, and so does what may become its chain. -/
structure Timed (node : Node P) : Prop where
  chain : node.chain.Timed
  trials : ∀ trial ∈ node.trials, trial.trial.Timed ∧ trial.trial.headers ≠ []
  reorgs : ∀ reorg ∈ node.reorgs, reorg.ledger.utxos.Tracks ∧ reorg.headers ≠ [] ∧
    TimesAdvance (reorg.headers.map CompactHeader.timestampUnix)

theorem timed_start (network : NetworkId) : (Node.start P network).Timed where
  chain := Chain.timed_newFair network
  trials := by simp [Node.start]
  reorgs := by simp [Node.start]

variable {node : Node P}

theorem Timed.step (timed : node.Timed) {op : Op} (checked : op.FullyChecked = true) :
    (node.step op).Timed := by
  obtain ⟨chain, trials, reorgs⟩ := timed
  cases op with
  | applyBlock block nowUnix => exact ⟨chain.applyBlockInner block nowUnix true, trials, reorgs⟩
  | applyBlockLocallyTrusted block nowUnix =>
      exact ⟨chain.applyBlockInner block nowUnix false, trials, reorgs⟩
  | applyBlockFromOwnDisk block => cases checked
  | tryIngestBlocks blocks nowUnix =>
      have kept (current : Chain P) (block : Block) (before : current.Timed) :
          (current.applyBlock block nowUnix).2.Timed := before.applyBlockInner block nowUnix true
      exact ⟨Chain.ingestFrom_induction kept chain 0 blocks, trials, reorgs⟩
  | maybeReorgTo blocks nowUnix => cases checked
  | pruneKeep keep => exact ⟨chain.pruneKeep keep, trials, reorgs⟩
  | prepareSuffixTrial ancestorHeight =>
      simp only [Node.step]
      cases prepared : node.chain.prepareSuffixTrial ancestorHeight with
      | error error => exact ⟨chain, trials, reorgs⟩
      | ok trial =>
          refine ⟨chain, ?_, reorgs⟩
          intro other member
          rcases List.mem_append.mp member with old | new
          · exact trials other old
          · obtain rfl := List.mem_singleton.mp new
            exact chain.prepareSuffixTrial prepared
  | finishSuffix position suffix nowUnix =>
      simp only [Node.step]
      cases found : node.trials[position]? with
      | none => exact ⟨chain, trials, reorgs⟩
      | some trial =>
          have fewer : ∀ other ∈ node.trials.eraseIdx position,
              other.trial.Timed ∧ other.trial.headers ≠ [] :=
            fun other member => trials other (List.mem_of_mem_eraseIdx member)
          simp only
          split
          next reorg finished =>
              refine ⟨chain, fewer, ?_⟩
              intro other member
              rcases List.mem_append.mp member with old | new
              · exact reorgs other old
              · obtain rfl := List.mem_singleton.mp new
                obtain ⟨trialTimed, some⟩ := trials trial (List.mem_of_getElem? found)
                obtain ⟨_, _, last, reached, _, rfl⟩ := Chain.finishSuffix_eq_some.mp finished
                have lastTimed := trialTimed.applyAll reached
                exact ⟨lastTimed.tracked.ledger, Chain.headers_applyAll trialTimed reached some,
                  lastTimed.advance⟩
          next => exact ⟨chain, fewer, reorgs⟩
  | spliceSuffix position =>
      simp only [Node.step]
      cases found : node.reorgs[position]? with
      | none => exact ⟨chain, trials, reorgs⟩
      | some reorg =>
          obtain ⟨tracks, some, advance⟩ := reorgs reorg (List.mem_of_getElem? found)
          exact ⟨Chain.timed_spliceSuffix chain tracks some advance, trials,
            fun other member => reorgs other (List.mem_of_mem_eraseIdx member)⟩

theorem timed_run {network : NetworkId} {ops : List Op}
    (checked : ∀ op ∈ ops, op.FullyChecked = true) : ((Node.start P network).run ops).Timed :=
  (GuardedRun.Along.of_forall_mem _ checked).invariant (timed_start network)
    fun _ _ timed allowed => timed.step allowed

/-- After every run of fully checked operations, each block after the first is later than
the median of its parent chain, the median does not fall with the height, and until it
reaches the last moment the rules about timestamps pass a template that is not too far
ahead. -/
theorem timestamps_advance (network : NetworkId) (ops : List Op)
    (checked : ∀ op ∈ ops, op.FullyChecked = true) :
    let chain := ((Node.start P network).run ops).chain
    chain.medianTimePast = medianTimePast chain.times ∧
      (∀ height time, chain.times[height]? = some time → 0 < height →
        medianTimePast (chain.times.take height) < time) ∧
      (∀ lower upper, lower ≤ upper → upper ≤ chain.times.length →
        medianTimePast (chain.times.take lower) ≤ medianTimePast (chain.times.take upper)) ∧
      ∀ (block : Block) (timestampUnix nowUnix : UInt64) (verifyPow : Bool),
        chain.medianTimePast.toNat < 2 ^ 64 - 1 →
        block.header.timestampUnix = chain.templateTimestamp timestampUnix →
        chain.templateTimestamp timestampUnix ≤
          Machine.saturatingAdd nowUnix maxFutureDriftSecs →
        chain.checkBlock block nowUnix verifyPow ≠ .error .timestampTooFarAhead ∧
          chain.checkBlock block nowUnix verifyPow ≠ .error .timestampBeforeMedian := by
  intro chain
  have timed : chain.Timed := (timed_run checked).chain
  refine ⟨timed.medianTimePast_eq_times, ?_, ?_, ?_⟩
  · intro height time found positive
    refine timed.advance.at_index found fun none => ?_
    obtain ⟨inside, _⟩ := List.getElem?_eq_some_iff.mp found
    have length := congrArg List.length none
    rw [List.length_take, List.length_nil] at length
    omega
  · intro lower upper order inside
    exact timed.advance.median_mono order inside
  · intro block timestampUnix nowUnix verifyPow below stamped soon
    exact ⟨fun failed => (Chain.template_timely below stamped soon failed).1 rfl,
      fun failed => (Chain.template_timely below stamped soon failed).2 rfl⟩

section Sampled

open Sample

def timelyOps : List Op :=
  [.applyBlock block0 now, .applyBlock block1 now, .applyBlock block2 now]

/-- The next template for a chain of three blocks is in time. -/
theorem timestamps_advance_sample :
    let chain := ((Node.start primitives .devnet).run timelyOps).chain
    chain.templateTimestamp 1045 = 1045 ∧
      chain.checkBlock block3 now true ≠ .error .timestampTooFarAhead ∧
      chain.checkBlock block3 now true ≠ .error .timestampBeforeMedian := by
  intro chain
  have stamp : chain.templateTimestamp 1045 = 1045 := by decide +kernel
  have timely := (timestamps_advance (P := primitives) .devnet timelyOps
    (by simp [timelyOps, Op.FullyChecked])).2.2.2 block3 1045 now true
  exact ⟨stamp, timely (by decide +kernel) (by decide +kernel) (by decide +kernel)⟩

/-- The first block, stamped with the last moment. -/
def late0 : Block :=
  { block0 with header := { block0.header with timestampUnix := UInt64.ofNat (2 ^ 64 - 1) } }

/-- A chain whose median is the last moment. -/
def lateChain : Chain primitives :=
  ((Node.start primitives .devnet).run [.applyBlock late0 (UInt64.ofNat (2 ^ 64 - 1))]).chain

/-- The second block, stamped as a template. -/
def late1 : Block :=
  let block := mine lateChain body1
  { block with header := { block.header with
      timestampUnix := lateChain.templateTimestamp (UInt64.ofNat (2 ^ 64 - 1)) } }

/-- At the last moment a template is within the drift bound but not later than the median. -/
theorem template_at_last_moment :
    lateChain.templateTimestamp (UInt64.ofNat (2 ^ 64 - 1)) ≤
        Machine.saturatingAdd (UInt64.ofNat (2 ^ 64 - 1)) maxFutureDriftSecs ∧
      late1.header.timestampUnix = lateChain.templateTimestamp (UInt64.ofNat (2 ^ 64 - 1)) ∧
      lateChain.checkBlock late1 (UInt64.ofNat (2 ^ 64 - 1)) true =
        .error .timestampBeforeMedian := by
  decide +kernel

end Sampled

end Node

end Nightfall
